import Registrar.Json.Reader
import Registrar.Proofs.Utf8RoundTrip
import Registrar.Proofs.Words

/-!
# JSON values are read back

A value that is written over several lines is read back, whatever level it is written at and whatever
white space stands before it (`Reads`). Texts and natural numbers are read back on their own
(`reads_string`, `reads_ofNat`), and arrays and objects are when what they hold is (`reads_array`,
`reads_object`).
-/

namespace Registrar.Text

/-! ## Decimal numbers -/

theorem digitsValue?_append_digit {base : Nat} {t : Text} {n d : Nat} {c : Char}
    (ht : digitsValue? base t = some n) (hc : digitValue? base c = some d) :
    digitsValue? base (t ++ [c]) = some (n * base + d) := by
  rw [digitsValue?] at ht ⊢
  split at ht
  · cases ht
  · rw [if_neg (by simp), List.foldlM_append, ht]
    simp [List.foldlM, hc]

theorem ofNat_of_ten_le {n : Nat} (h : 10 ≤ n) :
    ofNat n = ofNat (n / 10) ++ [(n % 10).digitChar] :=
  Nat.toDigits_of_base_le (by decide) h

/-- A number is the value of its decimal form. -/
theorem digitsValue?_ofNat (n : Nat) : digitsValue? 10 (ofNat n) = some n := by
  have hdigit : ∀ d < 10, digitValue? 10 d.digitChar = some d := by decide
  induction n using Nat.strongRecOn with
  | ind n ih =>
      by_cases hn : n < 10
      · rw [ofNat, Nat.toDigits_of_lt_base hn]
        simp [digitsValue?, hdigit n hn]
      · have hlast := hdigit (n % 10) (Nat.mod_lt _ (by decide))
        rw [ofNat_of_ten_le (by omega), digitsValue?_append_digit (ih (n / 10) (by omega)) hlast]
        congr 1
        omega

/-- A decimal form starts with a zero only where it is one. -/
theorem ofNat_eq_zero {n : Nat} (h : (ofNat n).head? = some '0') : ofNat n = ['0'] := by
  have hdigit : ∀ d < 10, d.digitChar = '0' → d = 0 := by decide
  have hzero : n = 0 := by
    induction n using Nat.strongRecOn with
    | ind n ih =>
        by_cases hn : n < 10
        · rw [ofNat, Nat.toDigits_of_lt_base hn] at h
          exact hdigit n hn (Option.some.inj h)
        · obtain ⟨c, r, hfront⟩ : ∃ c r, ofNat (n / 10) = c :: r :=
            List.exists_cons_of_ne_nil Nat.toDigits_ne_nil
          rw [ofNat_of_ten_le (by omega), hfront] at h
          have hfirst := ih (n / 10) (by omega) (hfront ▸ h)
          omega
  rw [hzero]
  rfl

theorem isDigit_of_mem_ofNat {n : Nat} {c : Char} (h : c ∈ ofNat n) : c.isDigit = true :=
  Nat.isDigit_of_mem_toDigits (by decide) (by decide) h

/-! ## Readings in a row -/

variable {α : Type} {read : Text → Option (α × Text)}

theorem many_of_some {t rest : Text} {a : α} (h : read t = some (a, rest))
    (hlt : rest.length < t.length) :
    many read t = (a :: (many read rest).1, (many read rest).2) := by
  rw [many, h]
  exact if_pos hlt

theorem many_of_none {t : Text} (h : read t = none) : many read t = ([], t) := by
  rw [many, h]

/-- Pieces that are read one by one are read in a row, up to where nothing more is read. A piece need
be read only where something `fits` behind it, as the other pieces and the end do. -/
theorem many_flatMap {β : Type} {write : β → Text} {value : β → α} {pieces : List β} {tail : Text}
    (fits : Text → Prop) (hpieces : ∀ b ∈ pieces, ∀ more, fits (write b ++ more)) (htail : fits tail)
    (hread : ∀ b ∈ pieces, ∀ rest, fits rest → read (write b ++ rest) = some (value b, rest))
    (hne : ∀ b ∈ pieces, write b ≠ []) (hend : read tail = none) :
    many read (pieces.flatMap write ++ tail) = (pieces.map value, tail) := by
  induction pieces with
  | nil => exact many_of_none hend
  | cons b pieces ih =>
      have hothers := ih (fun b' hb' => hpieces b' (List.mem_cons_of_mem _ hb'))
        (fun b' hb' => hread b' (List.mem_cons_of_mem _ hb'))
        fun b' hb' => hne b' (List.mem_cons_of_mem _ hb')
      have hfits : fits (pieces.flatMap write ++ tail) := by
        cases pieces with
        | nil => exact htail
        | cons b' pieces =>
            rw [List.flatMap_cons, List.append_assoc]
            exact hpieces b' (List.mem_cons_of_mem _ List.mem_cons_self) _
      have hlength := List.length_pos_iff.mpr (hne b List.mem_cons_self)
      rw [List.flatMap_cons, List.append_assoc,
        many_of_some (hread b List.mem_cons_self _ hfits)
          (by simp only [List.length_append]; omega),
        hothers]
      rfl

end Registrar.Text

namespace Registrar.Json

open Text

/-! ## Texts -/

/-- A character is read back from its escaped form. -/
theorem takeStringChar?_escapeChar (c : Char) (rest : Text) :
    takeStringChar? (escapeChar c ++ rest) = some (some c, rest) := by
  have hhex : ∀ n < 0x20, digitsValue? 16 ['0', '0', digit (n / 16), digit (n % 16)] = some n := by
    decide
  rw [escapeChar]
  split
  · next h => subst h; rfl
  split
  · next h => subst h; rfl
  split
  · next h => subst h; rfl
  split
  · next h => subst h; rfl
  split
  · next h => subst h; rfl
  split
  · next h => subst h; rfl
  split
  · next h => subst h; rfl
  split
  · next hcontrol =>
    have htake : takeHex? ('0' :: '0' :: digit (c.toNat / 16) :: digit (c.toNat % 16) :: rest) 4 =
        some (c.toNat, rest) := by
      rw [takeHex?, if_neg (by simp)]
      show (digitsValue? 16 ['0', '0', digit (c.toNat / 16), digit (c.toNat % 16)]).map _ = _
      rw [hhex c.toNat hcontrol]
      rfl
    show takeUnicode? ('0' :: '0' :: digit (c.toNat / 16) :: digit (c.toNat % 16) :: rest) = _
    rw [takeUnicode?, htake]
    simp only [Option.bind_eq_bind, Option.bind_some]
    rw [if_neg (by omega), if_neg (by omega), Char.ofNat_toNat]
    rfl
  · next hquote hslash _ _ _ _ _ hcontrol =>
    rw [List.singleton_append, takeStringChar?.eq_def]
    split
    · next heq =>
      cases heq
      exact absurd rfl hslash
    · next heq =>
      cases heq
      rw [if_neg (by simp [hquote, hslash, hcontrol])]
    · next heq => cases heq

theorem escapeChar_ne_nil (c : Char) : escapeChar c ≠ [] := by
  unfold escapeChar
  repeat' split
  all_goals simp

/-- **A text is read back from its quotes.** -/
theorem takeString?_quote (t rest : Text) :
    takeString? (quote t ++ rest) = some (some t, rest) := by
  have hmany : many takeStringChar? (t.flatMap escapeChar ++ '"' :: rest) =
      (t.map some, '"' :: rest) := by
    exact many_flatMap (fun _ => True) (fun _ _ _ => trivial) trivial
      (fun c _ rest _ => takeStringChar?_escapeChar c rest) (fun c _ => escapeChar_ne_nil c) rfl
  have htext : quote t ++ rest = '"' :: (t.flatMap escapeChar ++ '"' :: rest) := by
    simp [quote]
  unfold takeString?
  rw [htext]
  refine Option.bind_eq_some_iff.mpr ⟨_, rfl, ?_⟩
  rw [hmany]
  refine Option.bind_eq_some_iff.mpr ⟨rest, rfl, ?_⟩
  rw [mapM_id_map_some]
  rfl

/-! ## Items between brackets -/

theorem skipSpace_append {space : Text} (h : ∀ c ∈ space, isSpace c = true) (t : Text) :
    skipSpace (space ++ t) = skipSpace t :=
  List.dropWhile_append_of_pos h

theorem skipSpace_cons {c : Char} (h : isSpace c = false) (t : Text) :
    skipSpace (c :: t) = c :: t :=
  List.dropWhile_cons_of_neg (by simp [h])

theorem isSpace_newline (level : Nat) : ∀ c ∈ newline level, isSpace c = true := by
  intro c hc
  rcases List.mem_cons.mp hc with rfl | hc
  · rfl
  · rw [List.eq_of_mem_replicate hc]
    rfl

/-- What follows a value that is written between others: a comma, a line break, or nothing. -/
def EndsValue (rest : Text) : Prop :=
  ∀ c, rest.head? = some c → c = ',' ∨ c = '\n'

/-- **Items are read back from between their brackets**, when each is read on its own. -/
theorem takeItems?_block {α β : Type} {item : Text → Option (α × Text)} {write : β → Text}
    {value : β → α} {items : List β} (opener closer : Char) (level : Nat) (rest : Text)
    (hcloser : isSpace closer = false ∧ closer ≠ ',')
    (hstart : ∀ b ∈ items, ∃ c r, write b = c :: r ∧ isSpace c = false ∧ c ≠ closer)
    (hitem : ∀ b ∈ items, ∀ space rest, (∀ c ∈ space, isSpace c = true) → EndsValue rest →
      item (space ++ (write b ++ rest)) = some (value b, rest)) :
    ∃ tail, block opener closer level (items.map write) ++ rest = opener :: tail ∧
      takeItems? closer item tail = some (items.map value, rest) := by
  cases items with
  | nil =>
      refine ⟨closer :: rest, rfl, ?_⟩
      rw [takeItems?, skipSpace_cons hcloser.1, takeChar?, if_pos rfl]
      rfl
  | cons first others =>
      let separated (b : β) : Text := ',' :: newline (level + 1) ++ write b
      let behind : Text := newline level ++ closer :: rest
      have hends : EndsValue (others.flatMap separated ++ behind) := by
        intro c hc
        cases others with
        | nil => exact Or.inr (Option.some.inj hc).symm
        | cons b others => exact Or.inl (Option.some.inj hc).symm
      have hclose : skipSpace behind = closer :: rest := by
        rw [skipSpace_append (isSpace_newline level), skipSpace_cons hcloser.1]
      refine ⟨newline (level + 1) ++ (write first ++ (others.flatMap separated ++ behind)), ?_, ?_⟩
      · rw [block, if_neg (by simp), List.map_cons, joinWith_cons, List.flatMap_map]
        simp [separated, behind]
      · have hnot : (skipSpace (newline (level + 1) ++
            (write first ++ (others.flatMap separated ++ behind)))).takeChar? closer = none := by
          obtain ⟨c, r, hwrite, hspace, hne⟩ := hstart first List.mem_cons_self
          rw [skipSpace_append (isSpace_newline _), hwrite, List.cons_append, skipSpace_cons hspace,
            takeChar?, if_neg hne]
        have hmany : many (fun t => do item (← (skipSpace t).takeChar? ','))
            (others.flatMap separated ++ behind) = (others.map value, behind) := by
          refine many_flatMap EndsValue ?_ ?_ ?_ ?_ ?_
          · intro b _ more c hc
            exact Or.inl (Option.some.inj hc).symm
          · intro c hc
            exact Or.inr (Option.some.inj hc).symm
          · intro b hb rest' hrest'
            show item (newline (level + 1) ++ write b ++ rest') = _
            rw [List.append_assoc]
            exact hitem b (List.mem_cons_of_mem _ hb) _ _ (isSpace_newline _) hrest'
          · intro b _
            exact List.cons_ne_nil _ _
          · rw [hclose, takeChar?, if_neg hcloser.2]
            rfl
        rw [takeItems?, hnot]
        refine Option.bind_eq_some_iff.mpr
          ⟨_, hitem first List.mem_cons_self _ _ (isSpace_newline _) hends, ?_⟩
        dsimp only
        rw [hmany]
        refine Option.bind_eq_some_iff.mpr ⟨rest, ?_, rfl⟩
        rw [hclose, takeChar?, if_pos rfl]

/-! ## Values -/

/-- A value that is nested less than `depth` deep is read back, at any level of indentation and with
any white space before it. -/
structure Reads (depth : Nat) (v : Json) : Prop where
  start : ∀ level, ∃ c r, v.write level = c :: r ∧ isSpace c = false ∧ c ≠ ']'
  read : ∀ level space rest, (∀ c ∈ space, isSpace c = true) → EndsValue rest →
    takeValue? depth (space ++ (v.write level ++ rest)) = some (v, rest)

theorem takeValue?_space {space : Text} (h : ∀ c ∈ space, isSpace c = true) (depth : Nat)
    (t : Text) : takeValue? depth (space ++ t) = takeValue? depth t := by
  cases depth with
  | zero => rfl
  | succ depth => rw [takeValue?, takeValue?, skipSpace_append h]

theorem reads_string (depth : Nat) (t : Text) : Reads (depth + 1) (string t) where
  start level := ⟨'"', _, rfl, rfl, by decide⟩
  read level space rest hspace _ := by
    rw [takeValue?_space hspace]
    show (takeString? (quote t ++ rest)).map _ = _
    rw [takeString?_quote]
    rfl

/-- Digits are read up to where a value ends. -/
theorem takeDigits?_append {digits rest : Text} (hne : digits ≠ [])
    (hdigits : ∀ c ∈ digits, c.isDigit = true) (hrest : EndsValue rest) :
    takeDigits? (digits ++ rest) = some (digits, rest) := by
  have hstop : rest.takeWhile Char.isDigit = [] ∧ rest.dropWhile Char.isDigit = rest := by
    cases rest with
    | nil => exact ⟨rfl, rfl⟩
    | cons c r => rcases hrest c rfl with rfl | rfl <;> exact ⟨rfl, rfl⟩
  rw [takeDigits?, List.takeWhile_append_of_pos hdigits, List.dropWhile_append_of_pos hdigits,
    hstop.1, hstop.2, List.append_nil]
  cases digits with
  | nil => exact absurd rfl hne
  | cons c digits => rfl

theorem takeNumber?_ofNat (n : Nat) {rest : Text} (hrest : EndsValue rest) :
    takeNumber? (Text.ofNat n ++ rest) = some (Text.ofNat n, rest) := by
  have hne : Text.ofNat n ≠ [] := Nat.toDigits_ne_nil
  obtain ⟨c, digits, hn⟩ := List.exists_cons_of_ne_nil hne
  have hdigits : ∀ d ∈ Text.ofNat n, d.isDigit = true := fun d hd => isDigit_of_mem_ofNat hd
  have hsign : takeChar? '-' (Text.ofNat n ++ rest) = none := by
    have hc := hdigits c (hn ▸ List.mem_cons_self)
    rw [hn, List.cons_append, takeChar?, if_neg]
    intro hminus
    rw [hminus] at hc
    exact absurd hc (by decide)
  have hwhole : takeWhole? (Text.ofNat n ++ rest) = some (Text.ofNat n, rest) := by
    rw [takeWhole?, takeDigits?_append hne hdigits hrest]
    refine if_neg fun hzero => ?_
    rw [ofNat_eq_zero hzero.1] at hzero
    exact hzero.2 rfl
  have hfraction : takeFraction? rest = some ([], rest) := by
    cases rest with
    | nil => rfl
    | cons c r => rcases hrest c rfl with rfl | rfl <;> rfl
  have hexponent : takeExponent? rest = some ([], rest) := by
    cases rest with
    | nil => rfl
    | cons c r => rcases hrest c rfl with rfl | rfl <;> rfl
  rw [takeNumber?, hsign]
  simp only [hwhole, hfraction, hexponent, Option.bind_eq_bind, Option.bind_some, List.nil_append,
    List.append_nil]
  rfl

theorem isSpace_of_isDigit {c : Char} (hc : c.isDigit = true) : isSpace c = false := by
  cases hspace : isSpace c with
  | false => rfl
  | true =>
      simp only [isSpace, Bool.or_eq_true, beq_iff_eq] at hspace
      obtain ((rfl | rfl) | rfl) | rfl := hspace <;> cases hc

/-- What starts with a digit is a number. -/
theorem takeValue?_digit {c : Char} (hc : c.isDigit = true) (depth : Nat) (r : Text) :
    takeValue? (depth + 1) (c :: r) =
      (takeNumber? (c :: r)).map fun (written, rest) => (number written, rest) := by
  have hne : ∀ d : Char, d.isDigit = false → c ≠ d := by
    intro d hd heq
    rw [← heq, hc] at hd
    cases hd
  have hkeyword : ∀ (first : Char) (word : Text), first.isDigit = false →
      takeKeyword? (c :: r) (first :: word) = none := by
    intro first word hfirst
    rw [takeKeyword?, after?, if_neg (hne first hfirst)]
  rw [takeValue?, skipSpace_cons (isSpace_of_isDigit hc)]
  split
  · next heq =>
    cases heq
    cases hc
  · next heq =>
    cases heq
    cases hc
  · next heq =>
    cases heq
    cases hc
  · have hnull : takeKeyword? (c :: r) "null" = none := hkeyword 'n' "ull" rfl
    have htrue : takeKeyword? (c :: r) "true" = none := hkeyword 't' "rue" rfl
    have hfalse : takeKeyword? (c :: r) "false" = none := hkeyword 'f' "alse" rfl
    rw [hnull, htrue, hfalse]

theorem reads_ofNat (depth n : Nat) : Reads (depth + 1) (Json.ofNat n) := by
  have hne : Text.ofNat n ≠ [] := Nat.toDigits_ne_nil
  obtain ⟨c, digits, hn⟩ := List.exists_cons_of_ne_nil hne
  have hc : c.isDigit = true := isDigit_of_mem_ofNat (hn ▸ List.mem_cons_self)
  constructor
  · intro level
    refine ⟨c, digits, hn, isSpace_of_isDigit hc, fun heq => ?_⟩
    rw [heq] at hc
    cases hc
  · intro level space rest hspace hrest
    rw [takeValue?_space hspace]
    show takeValue? (depth + 1) (Text.ofNat n ++ rest) = _
    have hnumber := takeNumber?_ofNat n hrest
    rw [hn, List.cons_append] at hnumber ⊢
    rw [takeValue?_digit hc, hnumber, ← hn]
    rfl

theorem writeValues_eq (level : Nat) (values : List Json) :
    writeValues level values = values.map (write level) := by
  induction values with
  | nil => rfl
  | cons v values ih => rw [writeValues, ih, List.map_cons]

/-- A field of an object, written. -/
def writeField (level : Nat) (field : Text × Json) : Text :=
  quote field.1 ++ ": " ++ field.2.write level

theorem writeFields_eq (level : Nat) (fields : List (Text × Json)) :
    writeFields level fields = fields.map (writeField level) := by
  induction fields with
  | nil => rfl
  | cons field fields ih => rw [writeFields, ih, List.map_cons, writeField]

theorem block_eq_cons (opener closer : Char) (level : Nat) (items : List Text) :
    ∃ r, block opener closer level items = opener :: r := by
  unfold block
  split
  · exact ⟨_, rfl⟩
  · exact ⟨_, rfl⟩

/-- **An array is read back** when its values are. -/
theorem reads_array {depth : Nat} {values : List Json} (h : ∀ v ∈ values, Reads depth v) :
    Reads (depth + 1) (array values) := by
  constructor
  · intro level
    obtain ⟨r, hr⟩ := block_eq_cons '[' ']' level (writeValues (level + 1) values)
    exact ⟨'[', r, hr, rfl, by decide⟩
  · intro level space rest hspace _
    obtain ⟨tail, hblock, hitems⟩ := takeItems?_block '[' ']' level rest (by decide)
      (fun v hv => (h v hv).start (level + 1)) fun v hv => (h v hv).read (level + 1)
    have hwrite : write level (array values) ++ rest = '[' :: tail := by
      rw [write, writeValues_eq, hblock]
    rw [takeValue?_space hspace, hwrite]
    show (takeItems? ']' (takeValue? depth) tail).map _ = _
    rw [hitems, List.map_id']
    rfl

/-- A field is read back when its value is. -/
theorem takeField?_write {depth : Nat} {field : Text × Json} (h : Reads depth field.2)
    (level : Nat) {space rest : Text} (hspace : ∀ c ∈ space, isSpace c = true)
    (hrest : EndsValue rest) :
    takeField? (takeValue? depth) (space ++ (writeField level field ++ rest)) =
      some (some field, rest) := by
  have hkey : takeString? (skipSpace (space ++ (writeField level field ++ rest))) =
      some (some field.1, ':' :: ([' '] ++ (field.2.write level ++ rest))) := by
    have htext : writeField level field ++ rest =
        quote field.1 ++ ':' :: ([' '] ++ (field.2.write level ++ rest)) := by
      simp [writeField]
    have hquote : skipSpace (quote field.1 ++ ':' :: ([' '] ++ (field.2.write level ++ rest))) =
        quote field.1 ++ ':' :: ([' '] ++ (field.2.write level ++ rest)) := skipSpace_cons rfl _
    rw [skipSpace_append hspace, htext, hquote, takeString?_quote]
  refine Option.bind_eq_some_iff.mpr ⟨_, hkey, ?_⟩
  have hblank : ∀ c ∈ [' '], isSpace c = true := List.all_eq_true.mp rfl
  refine Option.bind_eq_some_iff.mpr ⟨_, rfl, ?_⟩
  exact Option.bind_eq_some_iff.mpr ⟨_, h.read level [' '] rest hblank hrest, rfl⟩

/-- **An object is read back** when the values of its fields are. -/
theorem reads_object {depth : Nat} {fields : List (Text × Json)}
    (h : ∀ field ∈ fields, Reads depth field.2) : Reads (depth + 1) (object fields) := by
  constructor
  · intro level
    obtain ⟨r, hr⟩ := block_eq_cons '{' '}' level (writeFields (level + 1) fields)
    exact ⟨'{', r, hr, rfl, by decide⟩
  · intro level space rest hspace _
    have hstart : ∀ field ∈ fields, ∃ c r, writeField (level + 1) field = c :: r ∧
        isSpace c = false ∧ c ≠ '}' := fun field _ => ⟨'"', _, rfl, rfl, by decide⟩
    obtain ⟨tail, hblock, hitems⟩ := takeItems?_block '{' '}' level rest (by decide) hstart
      fun field hfield space rest hspace hrest =>
        takeField?_write (h field hfield) (level + 1) hspace hrest
    have hwrite : write level (object fields) ++ rest = '{' :: tail := by
      rw [write, writeFields_eq, hblock]
    rw [takeValue?_space hspace, hwrite]
    show (takeItems? '}' (takeField? (takeValue? depth)) tail).map _ = _
    rw [hitems]
    show some (ofFields (fields.map some), rest) = _
    rw [ofFields, mapM_id_map_some]

/-- **A value is read back from its text.** -/
theorem read?_pretty {v : Json} (h : Reads (v.pretty.length + 1) v) :
    read? v.pretty = some v := by
  have hread := h.read 0 [] [] (by simp) (by simp [EndsValue])
  rw [List.nil_append, List.append_nil] at hread
  exact Option.bind_eq_some_iff.mpr ⟨_, hread, rfl⟩

end Registrar.Json
