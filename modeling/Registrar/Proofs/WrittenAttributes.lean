import Registrar.Proofs.QuotedPairs

/-!
# Attributes as they are written

The arguments of a marker are items with commas between them: flags, and pairs whose value is a row
of quoted segments. The search for pairs reads the text as it is, and the search for flags a text
with blanks between the quotes, but both keep to the items (`pairs_text`, `mem_flags_text_iff`). So
the parsed attributes are those that were written: the last value of every key, and `true` for every
flag that is no key (`parse_text`).
-/

namespace Registrar

namespace Dict

variable {α : Type}

/-- The value of the last entry with a key. -/
def lastValue? (entries : List (Text × α)) (key : Text) : Option α :=
  (entries.filter fun e => e.1 = key).getLast?.map Prod.snd

theorem lastValue?_cons (e : Text × α) (entries : List (Text × α)) (key : Text) :
    lastValue? (e :: entries) key =
      (lastValue? entries key).or (if e.1 = key then some e.2 else none) := by
  unfold lastValue?
  by_cases hkey : e.1 = key
  · rw [List.filter_cons_of_pos (by simpa using hkey), List.getLast?_cons, if_pos hkey]
    cases (entries.filter fun e => e.1 = key).getLast? <;> rfl
  · rw [List.filter_cons_of_neg (by simpa using hkey), if_neg hkey, Option.or_none]

theorem lastValue?_eq_none_iff {entries : List (Text × α)} {key : Text} :
    lastValue? entries key = none ↔ key ∉ entries.map Prod.fst := by
  rw [lastValue?, Option.map_eq_none_iff, List.getLast?_eq_none_iff, List.filter_eq_nil_iff]
  simp only [decide_eq_true_eq, List.mem_map, not_exists, not_and]

/-- A key without a value has no entry. -/
theorem notMem_of_lastValue? {entries : List (Text × α)} {key : Text}
    (h : lastValue? entries key = none) (value : α) : (key, value) ∉ entries :=
  fun hmem => lastValue?_eq_none_iff.mp h (List.mem_map_of_mem hmem)

/-- Of entries with distinct keys, each gives its key the value. -/
theorem lastValue?_eq_some_iff {entries : List (Text × α)}
    (hdistinct : (entries.map Prod.fst).Nodup) {key : Text} {value : α} :
    lastValue? entries key = some value ↔ (key, value) ∈ entries := by
  induction entries with
  | nil => simp [lastValue?]
  | cons e entries ih =>
      obtain ⟨hfirst, hothers⟩ := List.nodup_cons.mp hdistinct
      rw [lastValue?_cons, List.mem_cons]
      by_cases hkey : e.1 = key
      · have hnone : lastValue? entries key = none := lastValue?_eq_none_iff.mpr (hkey ▸ hfirst)
        rw [hnone, Option.none_or, if_pos hkey, or_iff_left (notMem_of_lastValue? hnone value), ← hkey,
          Option.some.injEq]
        exact ⟨fun hvalue => by rw [← hvalue], fun he => by rw [← he]⟩
      · rw [if_neg hkey, Option.or_none, ih hothers, or_iff_right]
        rintro rfl
        exact hkey rfl

/-- Of the entries that are put in, the last with a key counts. -/
theorem get?_insertAll (d : Dict α) (entries : List (Text × α)) (key : Text) :
    (d.insertAll entries).get? key = (lastValue? entries key).or (d.get? key) := by
  induction entries generalizing d with
  | nil => rfl
  | cons e entries ih =>
      show ((d.insert e.1 e.2).insertAll entries).get? key = _
      rw [ih, get?_insert, lastValue?_cons]
      by_cases hkey : e.1 = key
      · rw [if_pos hkey, if_pos hkey, Option.or_assoc]
        rfl
      · rw [if_neg hkey, if_neg hkey, Option.or_none]

/-- Entries with one value give it to their keys. -/
theorem lastValue?_map_const (keys : List Text) (value : α) (key : Text) :
    lastValue? (keys.map fun k => (k, value)) key = if key ∈ keys then some value else none := by
  induction keys with
  | nil => rfl
  | cons k keys ih =>
      rw [List.map_cons, lastValue?_cons, ih]
      by_cases hkey : k = key
      · by_cases hmem : key ∈ keys
        · simp [hkey, hmem]
        · simp [hkey, hmem]
      · simp [hkey, Ne.symm hkey]

end Dict

namespace Attributes

open Text

/-! ## Items -/

/-- The characters of ASCII identifiers. -/
def isIdentifierChar (c : Char) : Bool :=
  isAsciiAlphanumeric c || c == '_'

/-- An ASCII identifier, which does not start with a digit. -/
structure IsIdentifier (t : Text) : Prop where
  chars : ∀ c ∈ t, isIdentifierChar c = true
  start : ∃ c, t.head? = some c ∧ c.isDigit = false

/-- A flag, or a pair with its value in quoted segments. White space may stand before the equals
sign of a pair, and before every segment. -/
inductive Item
  | flag (name : Text) (identifier : IsIdentifier name)
      (capital : ∃ c, name.head? = some c ∧ ('A' ≤ c && c ≤ 'Z') = true)
  | pair (key space : Text) (segments : List Segment) (identifier : IsIdentifier key)
      (space_blank : ∀ c ∈ space, isBlank c = true) (segments_ne_nil : segments ≠ [])

namespace Item

/-- The item without the white space in front of it. -/
def body : Item → Text
  | flag name .. => name
  | pair key space segments .. => key ++ (space ++ '=' :: segments.flatMap Segment.written)

/-- The name of a flag. -/
def flag? : Item → Option Text
  | flag name .. => some name
  | pair .. => none

/-- The key of a pair, and its segments put together. -/
def pair? : Item → Option (Text × Text)
  | flag .. => none
  | pair key _ segments .. => some (key, segments.flatMap Segment.text)

end Item

/-- An item and the white space in front of it. -/
structure WrittenItem where
  gap : Text
  item : Item
  gap_blank : ∀ c ∈ gap, isBlank c = true

/-- The item as it is written. -/
def WrittenItem.text (i : WrittenItem) : Text :=
  i.gap ++ i.item.body

/-- Items as they are written, with commas between them. -/
def text (items : List WrittenItem) : Text :=
  joinWith "," (items.map WrittenItem.text)

/-- Items behind others, each with a comma in front. -/
def more (items : List WrittenItem) : Text :=
  items.flatMap fun i => ',' :: i.text

theorem text_cons (i : WrittenItem) (items : List WrittenItem) :
    text (i :: items) = i.text ++ more items := by
  rw [text, List.map_cons, joinWith_cons, List.flatMap_map]
  rfl

theorem isWord_of_isIdentifierChar {c : Char} (h : isIdentifierChar c = true) :
    isWord c = true := by
  have hbelow : ∀ last : Char, last.toNat < 0x80 → c.val ≤ last.val → c.toNat < 0x80 :=
    fun _ hlast hle => Nat.lt_of_le_of_lt (UInt32.le_iff_toNat_le.mp hle) hlast
  have hascii : c.toNat < 0x80 := by
    rcases Bool.or_eq_true_iff.mp h with halphanum | hunderscore
    · rcases Bool.or_eq_true_iff.mp halphanum with halpha | hdigit
      · rcases Bool.or_eq_true_iff.mp halpha with hupper | hlower
        · exact hbelow 'Z' (by decide) (of_decide_eq_true hupper).2
        · exact hbelow 'z' (by decide) (of_decide_eq_true (Bool.and_eq_true_iff.mp hlower).2)
      · exact hbelow '9' (by decide) (of_decide_eq_true (Bool.and_eq_true_iff.mp hdigit).2)
    · rw [eq_of_beq hunderscore]
      decide
  unfold isIdentifierChar at h
  simp only [isWord, hascii, if_true, h]

namespace IsIdentifier

variable {t : Text}

theorem isWord (h : IsIdentifier t) : ∀ c ∈ t, Text.isWord c = true :=
  fun c hc => isWord_of_isIdentifierChar (h.chars c hc)

theorem ne_nil (h : IsIdentifier t) : t ≠ [] := by
  obtain ⟨c, hc, -⟩ := h.start
  intro hnil
  rw [hnil] at hc
  cases hc

theorem quote_notMem (h : IsIdentifier t) : '"' ∉ t := by
  intro hmem
  exact absurd (h.isWord '"' hmem) (by decide)

end IsIdentifier

/-- What stands next to an item: nothing, or a comma. -/
def IsEdge (rest : Text) : Prop :=
  rest = [] ∨ ∃ r, rest = ',' :: r

theorem isEdge_more (items : List WrittenItem) : IsEdge (more items) := by
  cases items with
  | nil => exact Or.inl rfl
  | cons i items => exact Or.inr ⟨_, rfl⟩

theorem IsEdge.endsWord {rest : Text} (h : IsEdge rest) : Text.endsWord rest = true := by
  obtain rfl | ⟨r, rfl⟩ := h
  · rfl
  · rfl

theorem IsEdge.trimStart_eq {rest : Text} (h : IsEdge rest) : rest.trimStart = rest := by
  obtain rfl | ⟨r, rfl⟩ := h
  · rfl
  · rfl

theorem isEdge_blankQuoted {rest : Text} (h : IsEdge rest) : IsEdge (blankQuoted false rest) := by
  obtain rfl | ⟨r, rfl⟩ := h
  · exact Or.inl rfl
  · exact Or.inr ⟨_, rfl⟩

/-! ## Pairs -/

/-- Outside words there are no pairs. -/
theorem pairs_row {row : Text} (h : ∀ c ∈ row, isWord c = false) (rest : Text) :
    pairs (row ++ rest) = pairs rest := by
  induction row with
  | nil => rfl
  | cons c row ih =>
      have hnone : takePair? (c :: (row ++ rest)) = none := by
        simp [takePair?, takeWord?, h c List.mem_cons_self]
      rw [List.cons_append, pairs, findAll_of_none hnone]
      exact ih fun d hd => h d (List.mem_cons_of_mem _ hd)

/-- A word without an equals sign behind it starts no pair. -/
theorem pairs_word {word rest : Text} (hword : ∀ c ∈ word, isWord c = true) (hrest : IsEdge rest) :
    pairs (word ++ rest) = pairs rest := by
  induction word with
  | nil => rfl
  | cons c word ih =>
      have hread := takeWord?_append (List.cons_ne_nil c word) hword hrest.endsWord
      have hequals : takeChar? '=' rest = none := by
        obtain rfl | ⟨r, rfl⟩ := hrest
        · rfl
        · rfl
      have hnone : takePair? (c :: word ++ rest) = none := by
        rw [takePair?, hread]
        show (takeChar? '=' rest.trimStart).bind _ = none
        rw [hrest.trimStart_eq, hequals]
        rfl
      rw [List.cons_append] at hnone ⊢
      rw [pairs, findAll_of_none hnone]
      exact ih fun d hd => hword d (List.mem_cons_of_mem _ hd)

theorem pairs_item (i : WrittenItem) {rest : Text} (hrest : IsEdge rest) :
    pairs (i.text ++ rest) = i.item.pair?.toList ++ pairs rest := by
  have hgap : ∀ c ∈ i.gap, isWord c = false :=
    fun c hc => isWord_eq_false_of_isBlank (i.gap_blank c hc)
  rw [WrittenItem.text, List.append_assoc, pairs_row hgap]
  cases i.item with
  | flag name identifier capital => exact pairs_word identifier.isWord hrest
  | pair key space segments identifier space_blank segments_ne_nil =>
      have hnext : takeSegment? rest.trimStart = none := by
        rw [hrest.trimStart_eq]
        obtain rfl | ⟨r, rfl⟩ := hrest
        · rfl
        · rfl
      have hread := takePair?_written segments identifier.ne_nil identifier.isWord space_blank
        segments_ne_nil hnext
      have hbody : (Item.pair key space segments identifier space_blank segments_ne_nil).body ++
          rest = key ++ (space ++ '=' :: (segments.flatMap Segment.written ++ rest)) := by
        simp [Item.body]
      rw [hrest.trimStart_eq] at hread
      rw [hbody, pairs, findAll_of_some hread]
      · rfl
      · have hkey := List.length_pos_iff.mpr identifier.ne_nil
        simp only [List.length_append, List.length_cons]
        omega

theorem pairs_more (items : List WrittenItem) :
    pairs (more items) = items.filterMap (·.item.pair?) := by
  induction items with
  | nil => rw [more, List.flatMap_nil, pairs, findAll, List.filterMap_nil]
  | cons i items ih =>
      have hcomma : ∀ c ∈ [','], isWord c = false := forall_mem_of_all (by decide)
      have hmore : more (i :: items) = [','] ++ (i.text ++ more items) := by
        rw [more, List.flatMap_cons]
        rfl
      rw [hmore, pairs_row hcomma, pairs_item i (isEdge_more items), ih, List.filterMap_cons]
      cases i.item.pair? <;> rfl

/-- The pairs that are found are those that were written. -/
theorem pairs_text (items : List WrittenItem) :
    pairs (text items) = items.filterMap (·.item.pair?) := by
  cases items with
  | nil => exact pairs_more []
  | cons i items =>
      rw [text_cons, pairs_item i (isEdge_more items), pairs_more, List.filterMap_cons]
      cases i.item.pair? <;> rfl

/-! ## Flags -/

/-- Only at its front can a word be a flag. -/
theorem flags_word {word : Text} (hne : word ≠ []) (hword : ∀ c ∈ word, isWord c = true)
    (before after : Text) :
    (placesWithin before word after).filterMap flagAt? =
      (flagAt? ⟨before, word ++ after⟩).toList := by
  obtain ⟨c, word, rfl⟩ := List.exists_cons_of_ne_nil hne
  have hothers : (placesWithin (c :: before) word after).filterMap flagAt? = [] := by
    refine List.filterMap_eq_nil_iff.mpr fun p hp => ?_
    obtain ⟨s, t, rfl, -, rfl⟩ := mem_placesWithin_iff.mp hp
    have hinside : Place.atWordStart ⟨s.reverse ++ c :: before, t ++ after⟩ = false := by
      have hlast : ∃ d ∈ c :: s, (s.reverse ++ c :: before).head? = some d := by
        cases hs : s.reverse with
        | nil => exact ⟨c, List.mem_cons_self, rfl⟩
        | cons d r =>
            have hd : d ∈ s := by
              rw [← List.mem_reverse, hs]
              exact List.mem_cons_self
            exact ⟨d, List.mem_cons_of_mem _ hd, rfl⟩
      obtain ⟨d, hd, hhead⟩ := hlast
      have hmem : d ∈ c :: (s ++ t) := by
        rw [← List.cons_append]
        exact List.mem_append_left _ hd
      obtain ⟨r, hr⟩ := List.head?_eq_some_iff.mp hhead
      show endsWord (s.reverse ++ c :: before) = false
      rw [hr]
      simp [endsWord, hword d hmem]
    simp [flagAt?, hinside]
  rw [placesWithin, List.filterMap_cons, hothers]
  cases flagAt? ⟨before, c :: word ++ after⟩ <;> rfl

/-- Next to white space at the edge of an item there is no word and no equals sign. -/
theorem of_blanks_edge {blanks rest : Text} (hblanks : ∀ c ∈ blanks, isBlank c = true)
    (hrest : IsEdge rest) : endsWord (blanks ++ rest) = true ∧
      ((blanks ++ rest).dropWhile isAsciiBlank).head? ≠ some '=' := by
  induction blanks with
  | nil =>
      obtain rfl | ⟨r, rfl⟩ := hrest
      · exact ⟨rfl, by decide⟩
      · exact ⟨rfl, by simp [isAsciiBlank]⟩
  | cons c blanks ih =>
      have hc := hblanks c List.mem_cons_self
      obtain ⟨-, hequals⟩ := ih fun d hd => hblanks d (List.mem_cons_of_mem _ hd)
      refine ⟨by simp [endsWord, isWord_eq_false_of_isBlank hc], ?_⟩
      rw [List.cons_append, List.dropWhile_cons]
      split
      · exact hequals
      · intro heq
        cases heq
        exact absurd hc (by decide)

/-- A capitalised word between commas is a flag. -/
theorem flagAt?_word {gap word before after : Text} (hgap : ∀ c ∈ gap, isBlank c = true)
    (hword : ∀ c ∈ word, isWord c = true)
    (hcapital : ∃ c, word.head? = some c ∧ ('A' ≤ c && c ≤ 'Z') = true) (hbefore : IsEdge before)
    (hafter : IsEdge after) :
    flagAt? ⟨gap.reverse ++ before, word ++ after⟩ = some word := by
  obtain ⟨c, hc, hcapital⟩ := hcapital
  have hgap' : ∀ d ∈ gap.reverse, isBlank d = true := fun d hd => hgap d (List.mem_reverse.mp hd)
  obtain ⟨hstart, hfollows⟩ := of_blanks_edge hgap' hbefore
  obtain ⟨-, hprecedes⟩ := of_blanks_edge isBlank_of_mem_nil hafter
  have hhead : (word ++ after).head? = some c := by
    rw [List.head?_append, hc]
    rfl
  have hstop : after.takeWhile isWord = [] ∧ after.dropWhile isWord = after := by
    obtain rfl | ⟨r, rfl⟩ := hafter
    · exact ⟨rfl, rfl⟩
    · exact ⟨rfl, rfl⟩
  have hrun : (word ++ after).takeWhile isWord = word := by
    rw [List.takeWhile_append_of_pos hword, hstop.1, List.append_nil]
  have hbehind : (word ++ after).dropWhile isWord = after := by
    rw [List.dropWhile_append_of_pos hword, hstop.2]
  unfold flagAt? Place.atWordStart
  simp only [hstart, hhead, hrun, hbehind, Option.any_some, hcapital, Bool.true_and,
    beq_eq_false_iff_ne.mpr hfollows]
  rw [List.nil_append] at hprecedes
  simp [hprecedes]

/-- A flag at the front of a word is the word. -/
theorem eq_of_flagAt? {word name before after : Text} (hword : ∀ c ∈ word, isWord c = true)
    (hafter : endsWord after = true) (h : flagAt? ⟨before, word ++ after⟩ = some name) :
    name = word := by
  unfold flagAt? at h
  dsimp only at h
  split at h
  · obtain rfl := Option.some.inj h
    rw [List.takeWhile_append_of_pos hword]
    cases after with
    | nil => simp
    | cons c r =>
        have hc : ¬ isWord c = true := by simpa [endsWord] using hafter
        rw [List.takeWhile_cons_of_neg hc, List.append_nil]
  · cases h

/-- The segment with blanks between its quotes. -/
def Segment.blanked (s : Segment) : Segment where
  gap := s.gap
  text := s.text.map fun _ => ' '
  gap_blank := s.gap_blank
  plain := by simp

theorem blankQuoted_segments (segments : List Segment) (rest : Text) :
    blankQuoted false (segments.flatMap Segment.written ++ rest) =
      (segments.map Segment.blanked).flatMap Segment.written ++ blankQuoted false rest := by
  induction segments with
  | nil => rfl
  | cons s segments ih =>
      have hgap : '"' ∉ s.gap := fun hmem => absurd (s.gap_blank '"' hmem) (by decide)
      have htext : (s :: segments).flatMap Segment.written ++ rest =
          s.gap ++ '"' :: (s.text ++ '"' :: (segments.flatMap Segment.written ++ rest)) := by
        simp [Segment.written]
      rw [htext, blankQuoted_append hgap]
      show s.gap ++ '"' :: blankQuoted true (s.text ++ '"' :: _) = _
      rw [blankQuoted_append s.plain]
      show s.gap ++ '"' :: (s.text.map (fun _ => ' ') ++ '"' :: blankQuoted false _) = _
      rw [ih]
      simp [Segment.written, Segment.blanked]

/-- White space is no capital letter. -/
theorem capital_of_isBlank {c : Char} (h : isBlank c = true) : ('A' ≤ c && c ≤ 'Z') = false := by
  have htable : ∀ n ∈ blankCodes, ('A' ≤ Char.ofNat n && Char.ofNat n ≤ 'Z') = false := by
    decide +kernel
  simpa using htable c.toNat (toNat_mem_blankCodes h)

/-- Behind the key of a pair there are white space, an equals sign and blank segments. -/
theorem flags_behind_key {space : Text} (hspace : ∀ c ∈ space, isBlank c = true)
    (segments : List Segment) (before after : Text) :
    (placesWithin before
      (space ++ '=' :: (segments.map Segment.blanked).flatMap Segment.written) after).filterMap
        flagAt? = [] := by
  have hsegment : ∀ s : Segment, ∀ c ∈ s.blanked.written, ('A' ≤ c && c ≤ 'Z') = false := by
    intro s c hc
    simp only [Segment.written, Segment.blanked, List.mem_append, List.mem_cons, List.mem_map,
      List.not_mem_nil, or_false] at hc
    rcases hc with hc | rfl | ⟨-, -, rfl⟩ | rfl
    · exact capital_of_isBlank (s.gap_blank c hc)
    · decide
    · decide
    · decide
  apply flags_row
  intro c hc
  rcases List.mem_append.mp hc with hc | hc
  · exact capital_of_isBlank (hspace c hc)
  · rcases List.mem_cons.mp hc with rfl | hc
    · decide
    · obtain ⟨blanked, hblanked, hc⟩ := List.mem_flatMap.mp hc
      obtain ⟨s, -, rfl⟩ := List.mem_map.mp hblanked
      exact hsegment s c hc

/-- An item is a part of the text with blanks between the quotes, and of all names but the key of a
pair the flags in that part are those that were written. -/
theorem exists_blanked (i : WrittenItem) :
    ∃ part, (∀ rest, blankQuoted false (i.text ++ rest) = part ++ blankQuoted false rest) ∧
      ∀ before after name, IsEdge before → IsEdge after →
        (∀ value, i.item.pair? ≠ some (name, value)) →
          (name ∈ (placesWithin before part after).filterMap flagAt? ↔
            i.item.flag? = some name) := by
  have hgapQuote : '"' ∉ i.gap := fun hmem => absurd (i.gap_blank '"' hmem) (by decide)
  have hgapFlags : ∀ before after, (placesWithin before i.gap after).filterMap flagAt? = [] :=
    flags_row fun c hc => capital_of_isBlank (i.gap_blank c hc)
  unfold WrittenItem.text
  cases i.item with
  | flag word identifier capital =>
      refine ⟨i.gap ++ word, fun rest => ?_, fun before after name hbefore hafter _ => ?_⟩
      · have hquote : '"' ∉ i.gap ++ word := by
          rw [List.mem_append, not_or]
          exact ⟨hgapQuote, identifier.quote_notMem⟩
        exact blankQuoted_append hquote false rest
      · rw [placesWithin_append, List.filterMap_append, hgapFlags, List.nil_append,
          flags_word identifier.ne_nil identifier.isWord,
          flagAt?_word i.gap_blank identifier.isWord capital hbefore hafter]
        simp [Item.flag?, eq_comm]
  | pair key space segments identifier space_blank segments_ne_nil =>
      refine ⟨i.gap ++ (key ++ (space ++
        '=' :: (segments.map Segment.blanked).flatMap Segment.written)), fun rest => ?_,
        fun before after name _ _ hkey => ?_⟩
      · have hquote : '"' ∉ i.gap ++ key ++ (space ++ ['=']) := by
          have hspace : '"' ∉ space := fun hmem => absurd (space_blank '"' hmem) (by decide)
          simp [hgapQuote, identifier.quote_notMem, hspace]
        have htext : i.gap ++ (Item.pair key space segments identifier space_blank
            segments_ne_nil).body ++ rest =
            i.gap ++ key ++ (space ++ ['=']) ++ (segments.flatMap Segment.written ++ rest) := by
          simp [Item.body]
        rw [htext, blankQuoted_append hquote, blankQuoted_segments]
        simp
      · rw [placesWithin_append, placesWithin_append, List.filterMap_append, List.filterMap_append,
          hgapFlags, flags_behind_key space_blank, List.nil_append, List.append_nil,
          flags_word identifier.ne_nil identifier.isWord]
        -- the only name that may be found here is the key
        refine ⟨fun hmem => ?_, fun hflag => by cases hflag⟩
        have hends : endsWord (space ++ '=' ::
            (segments.map Segment.blanked).flatMap Segment.written ++ after) = true := by
          cases space with
          | nil => rfl
          | cons c r =>
              simp [endsWord, isWord_eq_false_of_isBlank (space_blank c List.mem_cons_self)]
        have hname := eq_of_flagAt? identifier.isWord hends (Option.mem_toList.mp hmem)
        exact absurd (by rw [hname]; rfl) (hkey (segments.flatMap Segment.text))

theorem mem_flags_more_iff {items : List WrittenItem} {name : Text}
    (hkeys : ∀ i ∈ items, ∀ value, i.item.pair? ≠ some (name, value)) (before : Text) :
    name ∈ (placesFrom before (blankQuoted false (more items))).filterMap flagAt? ↔
      name ∈ items.filterMap (·.item.flag?) := by
  induction items generalizing before with
  | nil => simp [more, blankQuoted, placesFrom, flagAt?]
  | cons i items ih =>
      obtain ⟨part, hpart, hflags⟩ := exists_blanked i
      have hcomma : ∀ after, (placesWithin before [','] after).filterMap flagAt? = [] :=
        flags_row (forall_mem_of_all (by decide)) before
      have hmore : blankQuoted false (more (i :: items)) =
          [','] ++ (part ++ blankQuoted false (more items)) := by
        rw [← hpart]
        rfl
      have hi := hflags (',' :: before) (blankQuoted false (more items)) name (Or.inr ⟨_, rfl⟩)
        (isEdge_blankQuoted (isEdge_more items)) (hkeys i List.mem_cons_self)
      rw [hmore, placesFrom_append, List.filterMap_append, hcomma, placesFrom_append,
        List.filterMap_append, List.nil_append, List.mem_append]
      have hrest := ih (fun j hj => hkeys j (List.mem_cons_of_mem _ hj))
        (part.reverse ++ ([','].reverse ++ before))
      rw [hrest, List.filterMap_cons]
      show name ∈ (placesWithin (',' :: before) part _).filterMap flagAt? ∨ _ ↔ _
      rw [hi]
      cases i.item.flag? <;> simp [eq_comm]

/-- The flags that are found are those that were written, but for keys of pairs. -/
theorem mem_flags_text_iff {items : List WrittenItem} {name : Text}
    (hkeys : ∀ i ∈ items, ∀ value, i.item.pair? ≠ some (name, value)) :
    name ∈ flags (text items) ↔ name ∈ items.filterMap (·.item.flag?) := by
  cases items with
  | nil => exact mem_flags_more_iff hkeys []
  | cons i items =>
      obtain ⟨part, hpart, hflags⟩ := exists_blanked i
      have hi := hflags [] (blankQuoted false (more items)) name (Or.inl rfl)
        (isEdge_blankQuoted (isEdge_more items)) (hkeys i List.mem_cons_self)
      have hrest := mem_flags_more_iff (fun j hj => hkeys j (List.mem_cons_of_mem _ hj))
        (part.reverse ++ [])
      rw [flags, text_cons, hpart, places, placesFrom_append, List.filterMap_append,
        List.mem_append, hi, hrest, List.filterMap_cons]
      cases i.item.flag? <;> simp [eq_comm]

/-! ## Attributes -/

/-- **Parsing gives back what was written.** A name has the segments of its last pair, put together;
without a pair it has the value of a flag when it was written as one, and nothing otherwise. -/
theorem get?_parse_text (items : List WrittenItem) (name : Text) :
    (parse (text items)).get? name =
      (Dict.lastValue? (items.filterMap (·.item.pair?)) name).or
        (if name ∈ items.filterMap (·.item.flag?) then some flagValue else none) := by
  unfold parse Dict.ofList
  rw [Dict.get?_insertAll, pairs_text, Dict.get?_insertAll, Dict.lastValue?_map_const,
    Dict.get?_empty, Option.or_none]
  cases hvalue : Dict.lastValue? (items.filterMap (·.item.pair?)) name with
  | some value => rfl
  | none =>
      have hkeys : ∀ i ∈ items, ∀ value, i.item.pair? ≠ some (name, value) := by
        intro i hi value hpair
        apply Dict.notMem_of_lastValue? hvalue value
        exact List.mem_filterMap.mpr ⟨i, hi, hpair⟩
      simp only [mem_flags_text_iff hkeys]

/-- A flag, and a pair with two segments. -/
example : text
    [⟨[], .flag "Abstract" ⟨List.all_eq_true.mp (by decide), 'A', rfl, rfl⟩ ⟨'A', rfl, by decide⟩,
        isBlank_of_mem_nil⟩,
      ⟨" ", .pair "Tooltip" " "
          [⟨" ", "Light, ", isBlank_of_mem_space, by decide⟩,
            ⟨[], "Abstract=1", isBlank_of_mem_nil, by decide⟩]
          ⟨List.all_eq_true.mp (by decide), 'T', rfl, rfl⟩ isBlank_of_mem_space
          (List.cons_ne_nil _ _),
        isBlank_of_mem_space⟩] =
      "Abstract, Tooltip = \"Light, \"\"Abstract=1\"".toList := by
  decide

end Attributes

end Registrar
