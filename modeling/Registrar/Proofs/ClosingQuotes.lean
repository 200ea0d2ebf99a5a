import Registrar.Proofs.StringLiterals

/-!
# Quotes that close a literal

Which quote closes a string literal can be told by counting: it is one with an even number of
backslashes in a row before it. The reader of literals does not count. It carries along whether the
last backslash takes the next character, and that is whether their number is odd (`takesNext_step`). So
the bodies of literals are the texts on one line whose quotes stand behind odd runs, and whose own run
at the end is even (`isBody_iff`).

Escaped texts are such bodies. Undoing the escapes gives back the text, and no other body stands for it.
-/

namespace Registrar.StringLiteral

/-! ## Runs of backslashes -/

/-- The number of backslashes at the end of a text, in a row. -/
def backslashRun (t : Text) : Nat :=
  (t.reverse.takeWhile (· = '\\')).length

theorem backslashRun_concat (t : Text) (c : Char) :
    backslashRun (t ++ [c]) = if c = '\\' then backslashRun t + 1 else 0 := by
  rw [backslashRun, List.reverse_concat, List.takeWhile_cons]
  by_cases hc : c = '\\'
  · rw [if_pos (decide_eq_true hc), if_pos hc, List.length_cons, ← backslashRun]
  · rw [if_neg (by simp [hc]), if_neg hc, List.length_nil]

/-- What the reader carries along past `front`: whether a backslash there takes the next character. -/
def TakesNext (front : Text) (escaped : Bool) : Prop :=
  escaped = true ↔ backslashRun front % 2 = 1

theorem takesNext_nil : TakesNext [] false := by
  simp [TakesNext, backslashRun]

theorem TakesNext.eq_false_iff {front : Text} {escaped : Bool} (h : TakesNext front escaped) :
    escaped = false ↔ backslashRun front % 2 = 0 := by
  rw [TakesNext] at h
  rw [← Bool.not_eq_true, h, Nat.mod_two_not_eq_one]

theorem takesNext_step {front : Text} {escaped : Bool} (h : TakesNext front escaped) (c : Char) :
    TakesNext (front ++ [c]) (c == '\\' && !escaped) := by
  rw [TakesNext, backslashRun_concat]
  by_cases hc : c = '\\'
  · -- one more backslash: the run turns from even to odd, or from odd to even
    rw [if_pos hc, hc, beq_self_eq_true, Bool.true_and, Bool.not_eq_true', h.eq_false_iff]
    omega
  · rw [if_neg hc, beq_eq_false_iff_ne.mpr hc]
    exact iff_of_false Bool.false_ne_true Nat.zero_ne_one

/-! ## Texts without a closing quote -/

/-- Behind `front`, the text has no line break, and none of its quotes closes a literal. -/
def Unclosing (front text : Text) : Prop :=
  ∀ before c after, text = before ++ c :: after →
    c ≠ '\n' ∧ (c = '"' → backslashRun (front ++ before) % 2 = 1)

theorem unclosing_nil (front : Text) : Unclosing front [] := by
  intro before c after heq
  cases before <;> cases heq

theorem unclosing_cons {front : Text} {c : Char} {r : Text} : Unclosing front (c :: r) ↔
    (c ≠ '\n' ∧ (c = '"' → backslashRun front % 2 = 1)) ∧ Unclosing (front ++ [c]) r := by
  constructor
  · intro h
    refine ⟨by simpa using h [] c r rfl, fun before d after heq => ?_⟩
    have hlater := h (c :: before) d after (by rw [heq, List.cons_append])
    rwa [List.append_cons] at hlater
  · rintro ⟨hfirst, hrest⟩ before d after heq
    cases before with
    | nil =>
        cases heq
        rwa [List.append_nil]
    | cons b before =>
        cases heq
        rw [List.append_cons]
        exact hrest before d after rfl

/-- The quote that the reader stops at is the first behind an even run of backslashes. -/
theorem unclosing_of_takeBody? {front : Text} {escaped : Bool} (h : TakesNext front escaped)
    {t body rest : Text} (hread : takeBody? escaped t = some (body, rest)) :
    Unclosing front body ∧ backslashRun (front ++ body) % 2 = 0 := by
  induction t generalizing front escaped body with
  | nil => cases hread
  | cons c r ih =>
      by_cases hclose : c = '"' ∧ escaped = false
      · rw [takeBody?, if_pos hclose] at hread
        cases hread
        exact ⟨unclosing_nil front, by rw [List.append_nil, ← h.eq_false_iff, hclose.2]⟩
      · by_cases hbreak : c = '\n'
        · rw [takeBody?, if_neg hclose, if_pos hbreak] at hread
          cases hread
        · rw [takeBody?_cons hclose hbreak] at hread
          obtain ⟨⟨tail, rest'⟩, htail, heq⟩ := Option.map_eq_some_iff.mp hread
          cases heq
          obtain ⟨hunclosing, heven⟩ := ih (takesNext_step h c) htail
          have hquote : c = '"' → backslashRun front % 2 = 1 := by
            intro hc
            rw [← Nat.mod_two_not_eq_zero, ← h.eq_false_iff]
            exact fun hescaped => hclose ⟨hc, hescaped⟩
          rw [List.append_cons]
          exact ⟨unclosing_cons.mpr ⟨⟨hbreak, hquote⟩, hunclosing⟩, heven⟩

theorem takeBody?_of_unclosing {front : Text} {escaped : Bool} (h : TakesNext front escaped)
    {body : Text} (hbody : Unclosing front body) (heven : backslashRun (front ++ body) % 2 = 0)
    (rest : Text) : takeBody? escaped (body ++ '"' :: rest) = some (body, rest) := by
  induction body generalizing front escaped with
  | nil =>
      rw [List.append_nil] at heven
      exact if_pos ⟨rfl, h.eq_false_iff.mpr heven⟩
  | cons c body ih =>
      obtain ⟨⟨hbreak, hquote⟩, hrest⟩ := unclosing_cons.mp hbody
      have hopen : ¬ (c = '"' ∧ escaped = false) := by
        rintro ⟨hc, hescaped⟩
        have hodd := hquote hc
        rw [h.eq_false_iff] at hescaped
        omega
      rw [List.append_cons] at heven
      rw [List.cons_append, takeBody?_cons hopen hbreak, ih (takesNext_step h c) hrest heven]
      rfl

/-- **Bodies of literals are told by counting**: on one line, every quote behind an odd run of
backslashes, and an even run at the end, before the quote that closes. -/
theorem isBody_iff {body : Text} :
    IsBody body ↔ Unclosing [] body ∧ backslashRun body % 2 = 0 := by
  constructor
  · intro h
    exact unclosing_of_takeBody? takesNext_nil (h [])
  · rintro ⟨hbody, heven⟩ rest
    exact takeBody?_of_unclosing takesNext_nil hbody heven rest

/-- Between its quotes, a body has no other quote that closes the literal. -/
theorem IsBody.even_iff {body : Text} (h : IsBody body) {before after : Text}
    (heq : between body = '"' :: (before ++ '"' :: after)) :
    backslashRun before % 2 = 0 ↔ after = [] := by
  obtain ⟨hunclosing, heven⟩ := isBody_iff.mp h
  have htail : body ++ ['"'] = before ++ '"' :: after := (List.cons.inj heq).2
  rcases List.eq_nil_or_concat after with rfl | ⟨inner, last, rfl⟩
  · obtain ⟨rfl, -⟩ := List.append_inj' htail rfl
    exact iff_of_true heven rfl
  · rw [List.concat_eq_append, ← List.cons_append, ← List.append_assoc] at htail
    obtain ⟨rfl, -⟩ := List.append_inj' htail rfl
    have hodd := (hunclosing before '"' inner rfl).2 rfl
    rw [List.nil_append] at hodd
    exact iff_of_false (by omega) (by simp)

/-! ## Escaped texts -/

/-- With no escapes but those of escaped texts, a body that stands for a text is the escaped text. -/
theorem eq_escape_of_unescape? {body s : Text} (h : unescape? writtenEscapes body = some s) :
    body = Artifact.escape s := by
  fun_induction unescape? writtenEscapes body generalizing s with
  | case1 =>
      cases h
      rfl
  | case2 => cases h
  | case3 e r ih =>
      obtain ⟨c, hlookup, h⟩ := Option.bind_eq_some_iff.mp h
      obtain ⟨rest, hrest, rfl⟩ := Option.map_eq_some_iff.mp h
      have hpair : (e, c) ∈ writtenEscapes := by
        obtain ⟨front, back, htable, -⟩ := List.lookup_eq_some_iff.mp hlookup
        simp [htable]
      rw [escape_cons, escapeChar_of_mem _ hpair, ← ih hrest]
      rfl
  | case4 => cases h
  | case5 c r hbackslash hmark ih =>
      obtain ⟨rest, hrest, rfl⟩ := Option.map_eq_some_iff.mp h
      rw [escape_cons, escapeChar_of_plain hbackslash hmark, ← ih hrest]
      rfl

theorem unescape?_eq_some_iff {body s : Text} :
    unescape? writtenEscapes body = some s ↔ body = Artifact.escape s := by
  refine ⟨eq_escape_of_unescape?, ?_⟩
  rintro rfl
  exact unescape?_escape (forall_mem_writtenEscapes rfl rfl rfl) s

end Registrar.StringLiteral

namespace Registrar.Artifact

open StringLiteral

/-- **An escaped text is read back, and stays within its quotes.** It is the one body that stands for
the text when a backslash, a quote and a line break are the only escapes, so different texts have
different escaped forms. It is on one line, and each of its quotes stands behind an odd run of
backslashes. So of the quotes behind the one that opens the literal, only the last closes it, and a
reader takes it for the end whatever follows. -/
theorem escape_read_back_within_quotes (s : Text) :
    (∀ body, unescape? writtenEscapes body = some s ↔ body = escape s) ∧
      (∀ t, escape t = escape s → t = s) ∧
      '\n' ∉ escape s ∧
      (∀ before after, escape s = before ++ '"' :: after → backslashRun before % 2 = 1) ∧
      (∀ before after, quote s = '"' :: (before ++ '"' :: after) →
        (backslashRun before % 2 = 0 ↔ after = [])) ∧
      ∀ rest, take? (quote s ++ rest) = some (escape s, rest) := by
  have hbody := isBody_escape s
  have hunclosing := (isBody_iff.mp hbody).1
  refine ⟨fun body => unescape?_eq_some_iff, fun t heq => ?_, fun hmem => ?_,
    fun before after heq => ?_, fun before after => hbody.even_iff, take?_between hbody⟩
  · have hread := unescape?_eq_some_iff.mpr heq.symm
    rw [unescape?_eq_some_iff.mpr rfl] at hread
    exact (Option.some.inj hread).symm
  · obtain ⟨before, after, heq⟩ := List.append_of_mem hmem
    exact (hunclosing before '\n' after heq).1 rfl
  · exact (hunclosing before '"' after heq).2 rfl

end Registrar.Artifact
