import Registrar.Proofs.WrittenAttributes

/-!
# Bare values

A pair may have its value without quotes, as a row of word characters, dots and signs. The search for
pairs takes the row as a whole, so a key has the value that was written (`pairs_argumentText`).

The search for flags sees the words of the row one by one. It passes over the word right behind the equals
sign and over no other, so every further word with a capital in front is a flag (`markedWords`,
`flags_bareText`). Pairs with bare values alone are therefore parsed to those pairs exactly when each of
these words is a key, whose value then counts.
-/

namespace Registrar.Attributes

open Text

/-! ## The arguments of a marker -/

/-- An argument of a marker: a flag, a pair with quoted segments, or a pair with a bare value. -/
inductive Argument
  | item (i : WrittenItem)
  | bare (gap key space lead value : Text) (gap_blank : ∀ c ∈ gap, isBlank c = true)
      (identifier : IsIdentifier key) (space_blank : ∀ c ∈ space, isBlank c = true)
      (lead_blank : ∀ c ∈ lead, isBlank c = true) (value_ne_nil : value ≠ [])
      (value_bare : ∀ c ∈ value, isBare c = true)

namespace Argument

/-- The argument as it is written. -/
def text : Argument → Text
  | item i => i.text
  | bare gap key space lead value .. => gap ++ (key ++ (space ++ '=' :: (lead ++ value)))

/-- The key of a pair, and its value. -/
def pair? : Argument → Option (Text × Text)
  | item i => i.item.pair?
  | bare _ key _ _ value .. => some (key, value)

end Argument

theorem isBlank_eq_false_of_isBare {c : Char} (h : isBare c = true) : isBlank c = false := by
  unfold isBare at h
  simp only [Bool.or_eq_true, beq_iff_eq] at h
  rcases h with ((hword | rfl) | rfl) | rfl
  · exact isBlank_eq_false_of_isWord hword
  · decide
  · decide
  · decide

/-- A bare value is read up to the edge of its argument. -/
theorem takeValue?_bare {value rest : Text} (hne : value ≠ []) (hvalue : ∀ c ∈ value, isBare c = true)
    (hrest : IsEdge rest) : takeValue? (value ++ rest) = some (value, rest) := by
  have hstop : rest.takeWhile isBare = [] ∧ rest.dropWhile isBare = rest := by
    obtain rfl | ⟨r, rfl⟩ := hrest
    · exact ⟨rfl, rfl⟩
    · exact ⟨rfl, rfl⟩
  have hquote : takeSegment? (value ++ rest) = none := by
    obtain ⟨c, r, rfl⟩ := List.exists_cons_of_ne_nil hne
    have hc : c ≠ '"' := by
      rintro rfl
      exact absurd (hvalue '"' List.mem_cons_self) (by decide)
    rw [List.cons_append, takeSegment?, if_neg hc]
  have hrun : (value ++ rest).takeWhile isBare = value := by
    rw [List.takeWhile_append_of_pos hvalue, hstop.1, List.append_nil]
  rw [takeValue?, hquote, if_neg (by decide), hrun, if_pos hne,
    List.dropWhile_append_of_pos hvalue, hstop.2]

theorem takePair?_bare {key space lead value rest : Text} (hkey : IsIdentifier key)
    (hspace : ∀ c ∈ space, isBlank c = true) (hlead : ∀ c ∈ lead, isBlank c = true)
    (hne : value ≠ []) (hvalue : ∀ c ∈ value, isBare c = true) (hrest : IsEdge rest) :
    takePair? (key ++ (space ++ '=' :: (lead ++ (value ++ rest)))) = some ((key, value), rest) := by
  have hends : endsWord (space ++ '=' :: (lead ++ (value ++ rest))) = true :=
    endsWord_blanks_append hspace rfl
  have hequals : trimStart (space ++ '=' :: (lead ++ (value ++ rest))) =
      '=' :: (lead ++ (value ++ rest)) := by
    rw [trimStart, List.dropWhile_append_of_pos hspace]
    rfl
  have hread : takeValue? (trimStart (lead ++ (value ++ rest))) = some (value, rest) := by
    obtain ⟨c, r, rfl⟩ := List.exists_cons_of_ne_nil hne
    have hc := isBlank_eq_false_of_isBare (hvalue c List.mem_cons_self)
    rw [List.cons_append, trimStart_blanks_append hlead hc, ← List.cons_append,
      takeValue?_bare hne hvalue hrest]
  rw [takePair?, takeWord?_append hkey.ne_nil hkey.isWord hends]
  show (takeChar? '=' (trimStart (space ++ _))).bind _ = _
  rw [hequals]
  show (takeValue? (trimStart (lead ++ (value ++ rest)))).bind _ = _
  rw [hread]
  rfl

theorem pairs_argument (a : Argument) {rest : Text} (hrest : IsEdge rest) :
    pairs (a.text ++ rest) = a.pair?.toList ++ pairs rest := by
  cases a with
  | item i => exact pairs_item i hrest
  | bare gap key space lead value gap_blank identifier space_blank lead_blank value_ne_nil value_bare =>
      have hread := takePair?_bare identifier space_blank lead_blank value_ne_nil value_bare hrest
      have hgap : ∀ c ∈ gap, isWord c = false :=
        fun c hc => isWord_eq_false_of_isBlank (gap_blank c hc)
      simp only [Argument.text, List.append_assoc, List.cons_append]
      rw [pairs_row hgap, pairs, findAll_of_some hread]
      · rfl
      · simp only [List.length_append, List.length_cons]
        omega

/-- Arguments with commas between them. -/
def argumentText (args : List Argument) : Text :=
  joinWith "," (args.map Argument.text)

theorem isEdge_behind (texts : List Text) : IsEdge (texts.flatMap fun t => ",".toList ++ t) := by
  cases texts with
  | nil => exact .inl rfl
  | cons t texts => exact .inr ⟨_, rfl⟩

theorem pairs_behind (args : List Argument) :
    pairs ((args.map Argument.text).flatMap fun t => ",".toList ++ t) =
      args.filterMap Argument.pair? := by
  induction args with
  | nil => rw [List.map_nil, List.flatMap_nil, pairs, findAll, List.filterMap_nil]
  | cons a args ih =>
      have hcomma : ∀ c ∈ (",".toList : Text), isWord c = false := forall_mem_of_all (by decide)
      have hedge := isEdge_behind (args.map Argument.text)
      rw [List.map_cons, List.flatMap_cons, List.append_assoc, pairs_row hcomma, pairs_argument a hedge,
        ih, List.filterMap_cons]
      cases a.pair? <;> rfl

/-- The pairs that are found are those of the arguments. -/
theorem pairs_argumentText (args : List Argument) :
    pairs (argumentText args) = args.filterMap Argument.pair? := by
  cases args with
  | nil => exact pairs_behind []
  | cons a args =>
      rw [argumentText, List.map_cons, joinWith_cons, pairs_argument a (isEdge_behind _),
        pairs_behind, List.filterMap_cons]
      cases a.pair? <;> rfl

/-- A key has the value of the last pair that gives it one. -/
theorem getD_parse_argumentText {args : List Argument} {key value : Text}
    (h : Dict.lastValue? (args.filterMap Argument.pair?) key = some value) (fallback : Text) :
    (parse (argumentText args)).getD key fallback = value := by
  rw [Dict.getD, parse, Dict.get?_insertAll, pairs_argumentText, h]
  rfl

/-! ## Flags in bare values -/

/-- The word starts with a capital letter. -/
def isCapitalised (word : Text) : Bool :=
  word.head?.any fun c => 'A' ≤ c && c ≤ 'Z'

/-- The pieces of a value between its dots and signs. -/
def pieces (value : Text) : List Text :=
  value.splitWhere fun c => !isWord c

/-- The capitalised words of a value, but for the one at its front. -/
def markedWords (value : Text) : List Text :=
  ((pieces value).drop 1).filter isCapitalised

/-- The characters of bare values that belong to no word. -/
def marks : Text := ".+-"

theorem mem_marks_of_isBare {c : Char} (h : isBare c = true) (hc : isWord c = false) : c ∈ marks := by
  unfold isBare at h
  simp only [hc, Bool.false_or, Bool.or_eq_true, beq_iff_eq] at h
  rcases h with (rfl | rfl) | rfl
  · decide
  · decide
  · decide

/-- At the edge of a word in a value there is neither white space nor an equals sign. -/
theorem of_mem_edge : ∀ c ∈ ',' :: marks,
    isAsciiBlank c = false ∧ isWord c = false ∧ c ≠ '=' :=
  forall_mem_of_all (by decide)

theorem not_capital_of_mem_marks : ∀ c ∈ marks, ('A' ≤ c && c ≤ 'Z') = false :=
  forall_mem_of_all (by decide)

theorem pieces_cons_mark {c : Char} (hc : isWord c = false) (r : Text) :
    pieces (c :: r) = [] :: pieces r := by
  rw [pieces, splitWhere, if_pos (by simp [hc])]
  rfl

/-- The first piece is the word at the front. -/
theorem exists_pieces_eq (value : Text) :
    ∃ others, pieces value = value.takeWhile isWord :: others := by
  induction value with
  | nil => exact ⟨[], rfl⟩
  | cons c r ih =>
      obtain ⟨others, hr⟩ := ih
      cases hc : isWord c with
      | false => exact ⟨pieces r, by rw [pieces_cons_mark hc, List.takeWhile_cons_of_neg (by simp [hc])]⟩
      | true =>
          refine ⟨others, ?_⟩
          rw [pieces] at hr ⊢
          rw [splitWhere, if_neg (by simp [hc]), hr, List.takeWhile_cons_of_pos hc]

theorem pieces_cons_word {c : Char} {r : Text} {others : List Text} (hc : isWord c = true)
    (hr : pieces r = r.takeWhile isWord :: others) :
    pieces (c :: r) = (c :: r.takeWhile isWord) :: others := by
  rw [pieces] at hr ⊢
  rw [splitWhere, if_neg (by simp [hc]), hr]

/-- Right behind a word character or an equals sign no flag starts. -/
theorem flagAt?_of_joined {first : Char} (h : isWord first = true ∨ first = '=')
    (before rest : Text) : flagAt? ⟨first :: before, rest⟩ = none := by
  rcases h with hword | rfl
  · simp [flagAt?, Place.atWordStart, endsWord, hword]
  · have hfollows : (('=' :: before).dropWhile isAsciiBlank).head? = some '=' := rfl
    simp [flagAt?, hfollows]

section

variable {value after : Text} (hafter : IsEdge after)

include hafter

theorem takeWhile_append_edge (value : Text) :
    (value ++ after).takeWhile isWord = value.takeWhile isWord := by
  induction value with
  | nil =>
      obtain rfl | ⟨r, rfl⟩ := hafter
      · rfl
      · rfl
  | cons c r ih =>
      rw [List.cons_append, List.takeWhile_cons, List.takeWhile_cons, ih]

/-- Behind a word of a value stands a mark, a comma or nothing. -/
theorem head?_dropWhile_isWord (hvalue : ∀ c ∈ value, isBare c = true) :
    ∀ c, ((value ++ after).dropWhile isWord).head? = some c → c ∈ ',' :: marks := by
  induction value with
  | nil =>
      intro c h
      obtain rfl | ⟨r, rfl⟩ := hafter
      · cases h
      · cases h
        exact List.mem_cons_self
  | cons d r ih =>
      obtain ⟨hd, hr⟩ := List.forall_mem_cons.mp hvalue
      cases hword : isWord d with
      | true =>
          rw [List.cons_append, List.dropWhile_cons_of_pos hword]
          exact ih hr
      | false =>
          intro c h
          rw [List.cons_append, List.dropWhile_cons_of_neg (by simp [hword])] at h
          cases h
          exact List.mem_cons_of_mem _ (mem_marks_of_isBare hd hword)

/-- Behind a word of a value there is no equals sign. -/
theorem head?_behind_word_ne (hvalue : ∀ c ∈ value, isBare c = true) :
    (((value ++ after).dropWhile isWord).dropWhile isAsciiBlank).head? ≠ some '=' := by
  have hstop := head?_dropWhile_isWord hafter hvalue
  cases hrest : (value ++ after).dropWhile isWord with
  | nil => exact Option.some_ne_none _ ∘ Eq.symm
  | cons c r =>
      obtain ⟨hblank, -, hequals⟩ := of_mem_edge c (hstop c (by rw [hrest]; rfl))
      rw [List.dropWhile_cons_of_neg (by simp [hblank])]
      exact fun h => hequals (Option.some.inj h)

/-- A word behind a mark is a flag when it is capitalised. -/
theorem flagAt?_behind_mark {mark c : Char} (hmark : mark ∈ marks) (hc : isWord c = true)
    (hvalue : ∀ d ∈ value, isBare d = true) (before : Text) :
    flagAt? ⟨mark :: before, c :: (value ++ after)⟩ =
      if isCapitalised (c :: value.takeWhile isWord) then some (c :: value.takeWhile isWord)
      else none := by
  obtain ⟨hblank, hword, hequals⟩ := of_mem_edge mark (List.mem_cons_of_mem _ hmark)
  have hstart : Place.atWordStart ⟨mark :: before, c :: (value ++ after)⟩ = true := by
    simp [Place.atWordStart, endsWord, hword]
  have hfollows : ((mark :: before).dropWhile isAsciiBlank).head? ≠ some '=' := by
    rw [List.dropWhile_cons_of_neg (by simp [hblank])]
    exact fun h => hequals (Option.some.inj h)
  have hprecedes :
      (((c :: (value ++ after)).dropWhile isWord).dropWhile isAsciiBlank).head? ≠ some '=' := by
    rw [List.dropWhile_cons_of_pos hc]
    exact head?_behind_word_ne hafter hvalue
  have hrun : (c :: (value ++ after)).takeWhile isWord = c :: value.takeWhile isWord := by
    rw [List.takeWhile_cons_of_pos hc, takeWhile_append_edge hafter]
  simp only [flagAt?, isCapitalised, hstart, hrun, beq_eq_false_iff_ne.mpr hfollows,
    beq_eq_false_iff_ne.mpr hprecedes, Bool.not_false, Bool.and_true, Bool.true_and,
    List.head?_cons]
  rfl

/-- **The flags in a value.** Behind a mark every capitalised piece is a flag; behind the equals sign, or
within a word, the first piece is none. -/
theorem flags_value (hvalue : ∀ c ∈ value, isBare c = true) (first : Char) (before : Text) :
    (first ∈ marks → (placesWithin (first :: before) value after).filterMap flagAt? =
      (pieces value).filter isCapitalised) ∧
    (isWord first = true ∨ first = '=' →
      (placesWithin (first :: before) value after).filterMap flagAt? = markedWords value) := by
  induction value generalizing first before with
  | nil => exact ⟨fun _ => rfl, fun _ => rfl⟩
  | cons c r ih =>
      obtain ⟨hc, hr⟩ := List.forall_mem_cons.mp hvalue
      obtain ⟨hbehind, hjoined⟩ := ih hr c (first :: before)
      cases hword : isWord c with
      | false =>
          have hmark : c ∈ marks := mem_marks_of_isBare hc hword
          have hplace : flagAt? ⟨first :: before, c :: r ++ after⟩ = none :=
            flagAt?_of_head rfl (not_capital_of_mem_marks c hmark)
          rw [markedWords, pieces_cons_mark hword, placesWithin, List.filterMap_cons_none hplace,
            hbehind hmark]
          exact ⟨fun _ => rfl, fun _ => rfl⟩
      | true =>
          obtain ⟨others, hpieces⟩ := exists_pieces_eq r
          have hrest : markedWords r = others.filter isCapitalised := by
            rw [markedWords, hpieces]
            rfl
          rw [markedWords, pieces_cons_word hword hpieces, placesWithin, List.cons_append]
          constructor
          · intro hmark
            have hplace := flagAt?_behind_mark hafter hmark hword hr before
            cases hcapital : isCapitalised (c :: r.takeWhile isWord) with
            | true =>
                rw [if_pos hcapital] at hplace
                rw [List.filterMap_cons_some hplace, hjoined (Or.inl hword), hrest,
                  List.filter_cons_of_pos hcapital]
            | false =>
                rw [if_neg (by simp [hcapital])] at hplace
                rw [List.filterMap_cons_none hplace, hjoined (Or.inl hword), hrest,
                  List.filter_cons_of_neg (by simp [hcapital])]
          · intro hfirst
            rw [List.filterMap_cons_none (flagAt?_of_joined hfirst before _), hjoined (Or.inl hword),
              hrest]
            rfl

end

/-! ## Pairs with bare values -/

/-- A key and its bare value, with the white space in front of them. -/
structure BarePair where
  gap : Text
  key : Text
  value : Text
  gap_blank : ∀ c ∈ gap, isBlank c = true
  identifier : IsIdentifier key
  value_ne_nil : value ≠ []
  value_bare : ∀ c ∈ value, isBare c = true

namespace BarePair

/-- The pair as it is written. -/
def text (i : BarePair) : Text :=
  i.gap ++ (i.key ++ '=' :: i.value)

/-- The key and its value. -/
def pair (i : BarePair) : Text × Text :=
  (i.key, i.value)

/-- The pair among the arguments of a marker. -/
def argument (i : BarePair) : Argument :=
  .bare i.gap i.key [] [] i.value i.gap_blank i.identifier isBlank_of_mem_nil isBlank_of_mem_nil
    i.value_ne_nil i.value_bare

theorem quote_notMem (i : BarePair) : '"' ∉ i.text := by
  rw [text, List.mem_append, List.mem_append, List.mem_cons]
  rintro (hgap | hkey | hequals | hvalue)
  · exact absurd (i.gap_blank '"' hgap) (by decide)
  · exact i.identifier.quote_notMem hkey
  · cases hequals
  · exact absurd (i.value_bare '"' hvalue) (by decide)

/-- The flags in a pair are those in its value. -/
theorem flags_text (i : BarePair) {after : Text} (hafter : IsEdge after) (before : Text) :
    (placesWithin before i.text after).filterMap flagAt? = markedWords i.value := by
  have hgap : (placesWithin before i.gap (i.key ++ '=' :: i.value ++ after)).filterMap flagAt? = [] :=
    flags_row (fun c hc => capital_of_isBlank (i.gap_blank c hc)) before _
  have hkey : flagAt? ⟨i.gap.reverse ++ before, i.key ++ ('=' :: i.value ++ after)⟩ = none := by
    apply flagAt?_of_precedes
    rw [List.dropWhile_append_of_pos i.identifier.isWord]
    rfl
  have hequals : flagAt? ⟨i.key.reverse ++ (i.gap.reverse ++ before), '=' :: i.value ++ after⟩ = none :=
    flagAt?_of_head rfl (by decide)
  rw [text, placesWithin_append, List.filterMap_append, hgap, List.nil_append, placesWithin_append,
    List.filterMap_append, flags_word i.identifier.ne_nil i.identifier.isWord, hkey, placesWithin,
    List.filterMap_cons_none hequals, (flags_value hafter i.value_bare '=' _).2 (Or.inr rfl)]
  rfl

end BarePair

/-- Pairs with bare values, with commas between them. -/
def bareText (items : List BarePair) : Text :=
  joinWith "," (items.map BarePair.text)

theorem bareText_eq (items : List BarePair) :
    bareText items = argumentText (items.map BarePair.argument) := by
  rw [bareText, argumentText, List.map_map]
  rfl

theorem pairs_bareText (items : List BarePair) :
    pairs (bareText items) = items.map BarePair.pair := by
  rw [bareText_eq, pairs_argumentText, List.filterMap_map]
  exact congrFun List.filterMap_eq_map items

theorem flags_bareText_behind (items : List BarePair) (before : Text) :
    (placesFrom before (blankQuoted false
      ((items.map BarePair.text).flatMap fun t => ",".toList ++ t))).filterMap flagAt? =
        items.flatMap fun i => markedWords i.value := by
  induction items generalizing before with
  | nil => simp [blankQuoted, placesFrom, flagAt?]
  | cons i items ih =>
      have hcomma : ∀ after, (placesWithin before [','] after).filterMap flagAt? = [] :=
        flags_row (forall_mem_of_all (by decide)) before
      have hedge := isEdge_blankQuoted (isEdge_behind (items.map BarePair.text))
      have hquote : '"' ∉ ",".toList ++ i.text := by
        rw [List.mem_append, not_or]
        exact ⟨by decide, i.quote_notMem⟩
      rw [List.map_cons, List.flatMap_cons, blankQuoted_append hquote]
      show (placesFrom before ([','] ++ i.text ++ _)).filterMap flagAt? = _
      rw [List.append_assoc, placesFrom_append, List.filterMap_append, hcomma, List.nil_append,
        placesFrom_append, List.filterMap_append, i.flags_text hedge, ih, List.flatMap_cons]

/-- **The flags among bare values** are the capitalised words behind their marks. -/
theorem flags_bareText (items : List BarePair) :
    flags (bareText items) = items.flatMap fun i => markedWords i.value := by
  cases items with
  | nil => rfl
  | cons i items =>
      have hedge := isEdge_blankQuoted (isEdge_behind (items.map BarePair.text))
      rw [flags, bareText, List.map_cons, joinWith_cons, blankQuoted_append i.quote_notMem, places]
      show (placesFrom [] (i.text ++ _)).filterMap flagAt? = _
      rw [placesFrom_append, List.filterMap_append, i.flags_text hedge, flags_bareText_behind,
        List.flatMap_cons]

/-- The value of a name: that of its pair, or else `true` for a word behind a mark. -/
theorem get?_parse_bareText (items : List BarePair) (name : Text) :
    (parse (bareText items)).get? name =
      (Dict.lastValue? (items.map BarePair.pair) name).or
        (if name ∈ items.flatMap (fun i => markedWords i.value) then some flagValue else none) := by
  rw [parse, Dict.get?_insertAll, pairs_bareText, Dict.ofList, Dict.get?_insertAll,
    Dict.lastValue?_map_const, Dict.get?_empty, Option.or_none, flags_bareText]

theorem fst_pair (items : List BarePair) :
    (items.map BarePair.pair).map Prod.fst = items.map BarePair.key := by
  rw [List.map_map]
  rfl

/-- The pairs are all there is exactly when every word behind a mark is a key. -/
theorem parse_bareText_eq_iff (items : List BarePair) :
    parse (bareText items) = Dict.ofList (items.map BarePair.pair) ↔
      ∀ i ∈ items, ∀ word ∈ markedWords i.value, word ∈ items.map BarePair.key := by
  have hpairs : ∀ name, (Dict.ofList (items.map BarePair.pair)).get? name =
      Dict.lastValue? (items.map BarePair.pair) name := by
    intro name
    rw [Dict.ofList, Dict.get?_insertAll, Dict.get?_empty, Option.or_none]
  rw [← fst_pair]
  constructor
  · intro heq i hi word hword
    apply Decidable.byContradiction
    intro hmissing
    have hflag := get?_parse_bareText items word
    rw [heq, hpairs, Dict.lastValue?_eq_none_iff.mpr hmissing,
      if_pos (List.mem_flatMap.mpr ⟨i, hi, hword⟩)] at hflag
    cases hflag
  · intro hwords
    apply Dict.ext_get?
    intro name
    rw [get?_parse_bareText, hpairs]
    cases hlast : Dict.lastValue? (items.map BarePair.pair) name with
    | some value => rfl
    | none =>
        rw [if_neg, Option.or_none]
        intro hmem
        obtain ⟨i, hi, hword⟩ := List.mem_flatMap.mp hmem
        exact Dict.lastValue?_eq_none_iff.mp hlast (hwords i hi name hword)

/-- **Bare values and the flags among them.** Of pairs with distinct keys, every key has its value. Every
capitalised word behind a dot or a sign of a value is a flag beside them, unless it is a key; so there
are no other entries exactly when all of these words are keys. -/
theorem parse_bare_pairs (items : List BarePair) (hdistinct : (items.map BarePair.key).Nodup) :
    (∀ name value, (parse (bareText items)).get? name = some value ↔
      (name, value) ∈ items.map BarePair.pair ∨
        name ∉ items.map BarePair.key ∧ value = flagValue ∧
          ∃ i ∈ items, name ∈ markedWords i.value) ∧
    (parse (bareText items) = Dict.ofList (items.map BarePair.pair) ↔
      ∀ i ∈ items, ∀ word ∈ markedWords i.value, word ∈ items.map BarePair.key) := by
  refine ⟨fun name value => ?_, parse_bareText_eq_iff items⟩
  rw [← fst_pair] at hdistinct ⊢
  rw [get?_parse_bareText, ← Dict.lastValue?_eq_some_iff hdistinct, ← Dict.lastValue?_eq_none_iff,
    ← List.mem_flatMap]
  cases Dict.lastValue? (items.map BarePair.pair) name with
  | some found => simp
  | none => simp [eq_comm, and_comm]

/-- A value with a word behind its sign, and a pair that has this word as its key. -/
def ranked : List BarePair :=
  [⟨[], "Level", "Very-High", isBlank_of_mem_nil,
      ⟨forall_mem_of_all (by decide), 'L', rfl, rfl⟩, List.cons_ne_nil _ _,
      forall_mem_of_all (by decide)⟩,
    ⟨" ", "High", "+1.5", isBlank_of_mem_space,
      ⟨forall_mem_of_all (by decide), 'H', rfl, rfl⟩, List.cons_ne_nil _ _,
      forall_mem_of_all (by decide)⟩]

theorem parse_bare_pairs_ranked :
    bareText ranked = "Level=Very-High, High=+1.5".toList ∧
      (ranked.map BarePair.key).Nodup ∧
      (parse (bareText ranked)).get? "High" = some "+1.5" ∧
      parse (bareText ranked) = Dict.ofList (ranked.map BarePair.pair) := by
  have hdistinct : (ranked.map BarePair.key).Nodup := by decide
  obtain ⟨hvalues, hall⟩ := parse_bare_pairs ranked hdistinct
  refine ⟨by decide, hdistinct, (hvalues _ _).mpr (Or.inl ?_), hall.mpr ?_⟩
  · decide
  · decide +kernel

/-- A word behind a sign of a value is a flag. -/
theorem parse_marked_value :
    (parse "Priority=Very-High").get? "Priority" = some "Very-High" ∧
      (parse "Priority=Very-High").get? "High" = some flagValue := by
  decide +kernel

end Registrar.Attributes
