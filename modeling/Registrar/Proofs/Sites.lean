import Registrar.Proofs.Comments

/-!
# Where markers stand

The places of a text fall into the places within its parts, in the order of the parts
(`placesFrom_append`), and so do the sites of a marker (`sitesFrom_append`). A header that is read
without an error has in its lists what each site of a marker contributes, in the order of the sites
(`readSites_eq_ok`).
-/

namespace Registrar.Text

/-- The places in front of the characters of `part`, where `before` precedes it, nearest character
first, and `after` follows it. -/
def placesWithin (before : Text) : (part after : Text) → List Place
  | [], _ => []
  | c :: r, after => ⟨before, c :: r ++ after⟩ :: placesWithin (c :: before) r after

theorem placesFrom_append (before part after : Text) :
    placesFrom before (part ++ after) =
      placesWithin before part after ++ placesFrom (part.reverse ++ before) after := by
  induction part generalizing before with
  | nil => rfl
  | cons c r ih => simp [placesFrom, placesWithin, ih]

theorem placesWithin_append (before s t after : Text) :
    placesWithin before (s ++ t) after =
      placesWithin before s (t ++ after) ++ placesWithin (s.reverse ++ before) t after := by
  induction s generalizing before with
  | nil => rfl
  | cons c r ih => simp [placesWithin, ih]

/-- A place within a part divides it, with something of the part behind. -/
theorem mem_placesWithin_iff {before part after : Text} {p : Place} :
    p ∈ placesWithin before part after ↔
      ∃ s t, part = s ++ t ∧ t ≠ [] ∧ p = ⟨s.reverse ++ before, t ++ after⟩ := by
  induction part generalizing before with
  | nil =>
      constructor
      · intro h
        cases h
      · intro hgiven
        obtain ⟨s, t, hpart, ht, -⟩ := hgiven
        exact absurd (List.append_eq_nil_iff.mp hpart.symm).2 ht
  | cons c r ih =>
      rw [placesWithin, List.mem_cons, ih]
      constructor
      · intro hgiven
        obtain rfl | ⟨s, t, rfl, ht, rfl⟩ := hgiven
        · exact ⟨[], c :: r, rfl, by simp, rfl⟩
        · exact ⟨c :: s, t, rfl, ht, by simp⟩
      · intro hgiven
        obtain ⟨s, t, hpart, ht, rfl⟩ := hgiven
        cases s with
        | nil =>
            left
            rw [hpart]
            rfl
        | cons d s =>
            cases hpart
            exact Or.inr ⟨s, t, rfl, ht, by simp⟩

/-- A place from the front of a text on divides the text. -/
theorem mem_placesFrom_iff {before t : Text} {p : Place} :
    p ∈ placesFrom before t ↔ ∃ s r, t = s ++ r ∧ p = ⟨s.reverse ++ before, r⟩ := by
  have hsplit := placesFrom_append before t []
  rw [List.append_nil] at hsplit
  rw [hsplit, List.mem_append, mem_placesWithin_iff, placesFrom, List.mem_singleton]
  constructor
  · intro hgiven
    obtain ⟨s, r, rfl, -, rfl⟩ | rfl := hgiven
    · exact ⟨s, r, rfl, by simp⟩
    · exact ⟨t, [], by simp, rfl⟩
  · intro hgiven
    obtain ⟨s, r, rfl, rfl⟩ := hgiven
    cases r with
    | nil => right; simp
    | cons c r => exact Or.inl ⟨s, c :: r, rfl, by simp, by simp⟩

/-- A character that is found behind a run stands right behind it. -/
theorem eq_of_takeChar?_dropWhile {p : Char → Bool} {c : Char} {t rest : Text}
    (h : takeChar? c (t.dropWhile p) = some rest) :
    ∃ run, (∀ d ∈ run, p d = true) ∧ t = run ++ c :: rest := by
  refine ⟨t.takeWhile p, List.all_eq_true.mp List.all_takeWhile, ?_⟩
  have hrest : t.dropWhile p = c :: rest := by
    cases hd : t.dropWhile p with
    | nil =>
        rw [hd] at h
        cases h
    | cons d r =>
        rw [hd, takeChar?] at h
        split at h
        · next hc =>
          cases h
          rw [hc]
        · cases h
  rw [← hrest, List.takeWhile_append_dropWhile]

/-! ## Offsets -/

theorem byteLength_append (s t : Text) :
    byteLength (s ++ t) = byteLength s + byteLength t := by
  induction s with
  | nil => simp [byteLength]
  | cons c r ih =>
      rw [List.cons_append, byteLength, byteLength, ih]
      omega

theorem byteLength_pos {t : Text} (h : t ≠ []) : 0 < byteLength t := by
  cases t with
  | nil => exact absurd rfl h
  | cons c r =>
      have := c.utf8Size_pos
      rw [byteLength]
      omega

theorem byteLength_reverse (t : Text) : byteLength t.reverse = byteLength t := by
  induction t with
  | nil => rfl
  | cons c r ih =>
      rw [List.reverse_cons, byteLength_append, ih, byteLength, byteLength, byteLength]
      omega

/-- Past the bytes of a text stands what follows it. -/
theorem dropBytes_append (front back : Text) :
    dropBytes (byteLength front) (front ++ back) = back := by
  induction front with
  | nil => rw [byteLength, dropBytes, List.nil_append]
  | cons c r ih =>
      obtain ⟨n, hn⟩ := Nat.exists_eq_add_one.mpr (byteLength_pos (List.cons_ne_nil c r))
      have hrest : n + 1 - c.utf8Size = byteLength r := by
        rw [← hn, byteLength, Nat.add_sub_cancel_left]
      rw [hn, List.cons_append, dropBytes, hrest, ih]

/-- Within the bytes of a text at the front stands that text. -/
theorem takeBytes_append (front back : Text) :
    takeBytes (byteLength front) (front ++ back) = front := by
  induction front with
  | nil => rw [byteLength, takeBytes]
  | cons c r ih =>
      obtain ⟨n, hn⟩ := Nat.exists_eq_add_one.mpr (byteLength_pos (List.cons_ne_nil c r))
      have hrest : n + 1 - c.utf8Size = byteLength r := by
        rw [← hn, byteLength, Nat.add_sub_cancel_left]
      rw [hn, List.cons_append, takeBytes, hrest, ih]

/-- The bytes before a place tell it from the other places of its text. -/
theorem atOffset_offset {t : Text} {p : Place} (h : p ∈ t.places) :
    Place.atOffset p.offset t = p := by
  obtain ⟨front, back, rfl, rfl⟩ := mem_placesFrom_iff.mp h
  rw [List.append_nil, Place.offset, byteLength_reverse, Place.atOffset, takeBytes_append,
    dropBytes_append]

/-- The places within a part come before the place at its end. -/
theorem offset_lt_of_mem_placesWithin {before part after : Text} {p : Place}
    (h : p ∈ placesWithin before part after) :
    p.offset < byteLength (part.reverse ++ before) := by
  obtain ⟨s, t, rfl, ht, rfl⟩ := mem_placesWithin_iff.mp h
  have hpos := byteLength_pos ht
  simp only [Place.offset, byteLength_append, byteLength_reverse]
  omega

/-- The places from the front of a text on do not come before it. -/
theorem le_offset_of_mem_placesFrom {before t : Text} {p : Place}
    (h : p ∈ placesFrom before t) : byteLength before ≤ p.offset := by
  obtain ⟨s, r, rfl, rfl⟩ := mem_placesFrom_iff.mp h
  simp only [Place.offset, byteLength_append]
  omega

end Registrar.Text

namespace Registrar

/-- A word, white space and an opening parenthesis are a call. -/
theorem takeCall?_append {word space : Text} (hspace : ∀ c ∈ space, Text.isBlank c = true)
    (rest : Text) : takeCall? word (word ++ space ++ '(' :: rest) = some rest := by
  have hword : (word ++ space ++ '(' :: rest).after? word = some (space ++ '(' :: rest) :=
    Text.after?_eq_some_iff.mpr (List.append_assoc ..)
  have htrim : (space ++ '(' :: rest).trimStart = '(' :: rest := by
    rw [Text.trimStart, List.dropWhile_append_of_pos hspace]
    rfl
  rw [takeCall?, hword]
  show Text.takeChar? '(' (space ++ '(' :: rest).trimStart = some rest
  rw [htrim]
  rfl

/-- What a call is: the word, white space and an opening parenthesis. -/
theorem eq_of_takeCall? {word t rest : Text} (h : takeCall? word t = some rest) :
    ∃ space, (∀ c ∈ space, Text.isBlank c = true) ∧ t = word ++ space ++ '(' :: rest := by
  obtain ⟨tail, htail, hparen⟩ := Option.bind_eq_some_iff.mp h
  obtain ⟨space, hspace, rfl⟩ := Text.eq_of_takeChar?_dropWhile hparen
  exact ⟨space, hspace, by rw [Text.after?_eq_some_iff.mp htail, List.append_assoc]⟩

/-- No call of a word starts in a row without an opening parenthesis, when what follows the row is
not part of a call. -/
theorem takeCall?_eq_none {word row : Text} {stop : Char}
    (hword : ∀ c ∈ word, Text.isWord c = true) (hrow : '(' ∉ row)
    (hstop : Text.isWord stop = false ∧ Text.isBlank stop = false ∧ stop ≠ '(') (after : Text) :
    takeCall? word (row ++ stop :: after) = none := by
  cases hcall : takeCall? word (row ++ stop :: after) with
  | none => rfl
  | some rest =>
      obtain ⟨space, hspace, heq⟩ := eq_of_takeCall? hcall
      -- the parenthesis of the call would have to stand in the row, at its end or behind it
      rcases List.append_eq_append_iff.mp heq with ⟨between, hcalled, hbetween⟩ |
        ⟨between, rfl, hbetween⟩
      · cases between with
        | nil =>
            cases hbetween
            exact absurd rfl hstop.2.2
        | cons c between =>
            cases hbetween
            have hmem : stop ∈ word ++ space := by simp [hcalled]
            rcases List.mem_append.mp hmem with hw | hs
            · simp [hword stop hw] at hstop
            · simp [hspace stop hs] at hstop
      · cases between with
        | nil =>
            cases hbetween
            exact absurd rfl hstop.2.2
        | cons c between =>
            cases hbetween
            exact absurd (by simp) hrow

/-- A call that starts in a part whose last character belongs to no call lies within the part. -/
theorem takeCall?_within {word part after rest : Text} {stop : Char}
    (hword : ∀ c ∈ word, Text.isWord c = true) (hlast : part.getLast? = some stop)
    (hstop : Text.isWord stop = false ∧ Text.isBlank stop = false ∧ stop ≠ '(')
    (h : takeCall? word (part ++ after) = some rest) :
    ∃ inner, takeCall? word part = some inner ∧ rest = inner ++ after := by
  obtain ⟨space, hspace, heq⟩ := eq_of_takeCall? h
  have heq' : part ++ after = (word ++ space ++ ['(']) ++ rest := by simpa using heq
  rcases List.append_eq_append_iff.mp heq' with ⟨inner, hcalled, -⟩ | ⟨inner, hpart, hrest⟩
  · -- the part would be inside the word, the white space and the parenthesis
    have hmem : stop ∈ word ++ space ++ ['('] := by
      rw [hcalled]
      exact List.mem_append_left _ (List.mem_of_getLast? hlast)
    simp only [List.mem_append, List.mem_singleton] at hmem
    obtain (hw | hs) | hp := hmem
    · simp [hword stop hw] at hstop
    · simp [hspace stop hs] at hstop
    · exact absurd hp hstop.2.2
  · refine ⟨inner, ?_, hrest⟩
    rw [hpart, List.append_assoc]
    exact takeCall?_append hspace inner

end Registrar

namespace Registrar.Marker

/-- The sites of a marker within a part of a text. -/
def sitesWithin (m : Marker) (before part after : Text) : List Site :=
  (Text.placesWithin before part after).filterMap m.siteAt?

/-- The sites of a marker from the front of a text on. -/
def sitesFrom (m : Marker) (before t : Text) : List Site :=
  (Text.placesFrom before t).filterMap m.siteAt?

theorem sites_eq (m : Marker) (t : Text) : m.sites t = m.sitesFrom [] t := rfl

theorem sitesFrom_append (m : Marker) (before part after : Text) :
    m.sitesFrom before (part ++ after) =
      m.sitesWithin before part after ++ m.sitesFrom (part.reverse ++ before) after := by
  rw [sitesFrom, Text.placesFrom_append, List.filterMap_append]
  rfl

theorem sitesWithin_append (m : Marker) (before s t after : Text) :
    m.sitesWithin before (s ++ t) after =
      m.sitesWithin before s (t ++ after) ++ m.sitesWithin (s.reverse ++ before) t after := by
  rw [sitesWithin, Text.placesWithin_append, List.filterMap_append]
  rfl

theorem sitesWithin_cons_some {m : Marker} {before r after : Text} {c : Char} {site : Site}
    (h : m.siteAt? ⟨before, c :: r ++ after⟩ = some site) :
    m.sitesWithin before (c :: r) after = site :: m.sitesWithin (c :: before) r after := by
  rw [sitesWithin, Text.placesWithin, List.filterMap_cons_some h]
  rfl

/-- A part in which no call of the marker starts has no site. -/
theorem sitesWithin_eq_nil {m : Marker} {before part after : Text}
    (h : ∀ s t, part = s ++ t → t ≠ [] → takeCall? m.word (t ++ after) = none) :
    m.sitesWithin before part after = [] := by
  refine List.filterMap_eq_nil_iff.mpr fun p hp => ?_
  obtain ⟨s, t, hpart, ht, rfl⟩ := Text.mem_placesWithin_iff.mp hp
  rw [siteAt?, h s t hpart ht]

theorem word_isWord (m : Marker) : ∀ c ∈ m.word, Text.isWord c = true := by
  cases m <;> exact List.all_eq_true.mp (by decide)

/-- A row without an opening parenthesis, before a character that is not part of a call, has no
site. -/
theorem sitesWithin_row {row : Text} {stop : Char} (m : Marker) (before after : Text)
    (hrow : '(' ∉ row)
    (hstop : Text.isWord stop = false ∧ Text.isBlank stop = false ∧ stop ≠ '(') :
    m.sitesWithin before row (stop :: after) = [] := by
  refine sitesWithin_eq_nil fun s t hpart _ => takeCall?_eq_none m.word_isWord ?_ hstop after
  rw [hpart, List.mem_append] at hrow
  exact fun ht => hrow (Or.inr ht)

/-- What a site of a marker is: the marker as a word and outside comments, and a parenthesis. -/
theorem siteAt?_eq_some_iff {m : Marker} {p : Place} {site : Site} :
    m.siteAt? p = some site ↔
      takeCall? m.word p.after = some site.rest ∧ p.atWordStart = true ∧ p.inComment = false ∧
        site.place = p := by
  obtain ⟨place, rest⟩ := site
  rw [siteAt?]
  cases takeCall? m.word p.after with
  | none => simp
  | some found =>
      by_cases hlive : (p.atWordStart && !p.inComment) = true
      · simp only [if_pos hlive, Option.some.injEq, Site.mk.injEq]
        simp only [Bool.and_eq_true, Bool.not_eq_true'] at hlive
        grind
      · simp only [if_neg hlive]
        simp only [Bool.and_eq_true, Bool.not_eq_true'] at hlive
        grind

/-- A part whose last character belongs to no call has no site in a text if it has none on its
own. -/
theorem sitesWithin_eq_nil_of_sites {m : Marker} {before part after : Text} {stop : Char}
    (hlast : part.getLast? = some stop)
    (hstop : Text.isWord stop = false ∧ Text.isBlank stop = false ∧ stop ≠ '(')
    (h : m.sites part = []) : m.sitesWithin before part after = [] := by
  refine List.eq_nil_iff_forall_not_mem.mpr fun site hsite => ?_
  obtain ⟨p, hp, hat⟩ := List.mem_filterMap.mp hsite
  obtain ⟨s, t, rfl, ht, rfl⟩ := Text.mem_placesWithin_iff.mp hp
  obtain ⟨hcall, hword, hlive, -⟩ := siteAt?_eq_some_iff.mp hat
  have htlast : t.getLast? = some stop := by
    rw [List.getLast?_append, List.getLast?_eq_some_getLast ht] at hlast
    rw [List.getLast?_eq_some_getLast ht]
    exact hlast
  obtain ⟨inner, hinner, -⟩ := takeCall?_within m.word_isWord htlast hstop hcall
  have hword' : Place.atWordStart ⟨s.reverse, t⟩ = true := by
    cases hs : s.reverse with
    | nil => rfl
    | cons c r =>
        rw [hs] at hword
        exact hword
  have hlive' : Place.inComment ⟨s.reverse, t⟩ = false := by
    rw [← Bool.not_eq_true]
    intro hin
    rw [Place.inComment_append hin before (t ++ after)] at hlive
    cases hlive
  have hown : (⟨⟨s.reverse, t⟩, inner⟩ : Site) ∈ m.sites (s ++ t) := by
    refine List.mem_filterMap.mpr ⟨⟨s.reverse, t⟩, ?_, ?_⟩
    · exact Text.mem_placesFrom_iff.mpr ⟨s, t, rfl, by rw [List.append_nil]⟩
    · exact siteAt?_eq_some_iff.mpr ⟨hinner, hword', hlive', rfl⟩
  rw [h] at hown
  cases hown

/-- A live call at a place is a site, behind the sites within what precedes it and before all
others. -/
theorem sites_append_call {m : Marker} {before rest after : Text}
    (hcall : takeCall? m.word rest = some after)
    (hword : Place.atWordStart ⟨before.reverse, rest⟩ = true)
    (hlive : Place.inComment ⟨before.reverse, rest⟩ = false) :
    ∃ earlier later,
      m.sites (before ++ rest) = earlier ++ ⟨⟨before.reverse, rest⟩, after⟩ :: later ∧
      (∀ s ∈ earlier, s.place.offset < Place.offset ⟨before.reverse, rest⟩) ∧
      (∀ s ∈ later, Place.offset ⟨before.reverse, rest⟩ < s.place.offset) := by
  have hsite : m.siteAt? ⟨before.reverse, rest⟩ = some ⟨⟨before.reverse, rest⟩, after⟩ :=
    siteAt?_eq_some_iff.mpr ⟨hcall, hword, hlive, rfl⟩
  cases rest with
  | nil => cases m <;> cases hcall
  | cons c r =>
      refine ⟨m.sitesWithin [] before (c :: r), m.sitesFrom (c :: before.reverse) r, ?_, ?_, ?_⟩
      · rw [sites_eq, sitesFrom_append, List.append_nil, sitesFrom, Text.placesFrom,
          List.filterMap_cons_some hsite]
        rfl
      · intro s hs
        obtain ⟨p, hp, hat⟩ := List.mem_filterMap.mp hs
        have hlt := Text.offset_lt_of_mem_placesWithin hp
        rw [List.append_nil] at hlt
        rw [(siteAt?_eq_some_iff.mp hat).2.2.2]
        exact hlt
      · intro s hs
        obtain ⟨p, hp, hat⟩ := List.mem_filterMap.mp hs
        have hle := Text.le_offset_of_mem_placesFrom hp
        have hpos := c.utf8Size_pos
        rw [Text.byteLength] at hle
        rw [(siteAt?_eq_some_iff.mp hat).2.2.2]
        show Text.byteLength before.reverse < p.offset
        omega

end Registrar.Marker

namespace Registrar.Header

deriving instance DecidableEq for Except

variable {α β ε : Type}

/-- A computation after another succeeds when both do. -/
theorem bind_eq_ok_iff {x : Except ε α} {f : α → Except ε β} {b : β} :
    (x >>= f) = .ok b ↔ ∃ a, x = .ok a ∧ f a = .ok b := by
  cases x with
  | error e => simp [bind, Except.bind]
  | ok a => simp [bind, Except.bind]

/-- A computation for each element of a list succeeds when every one does. -/
theorem mapM_eq_ok_iff {f : α → Except ε β} {l : List α} {r : List β} :
    l.mapM f = .ok r ↔ l.map f = r.map .ok := by
  induction l generalizing r with
  | nil => cases r <;> simp [pure, Except.pure]
  | cons a l ih =>
      rw [List.mapM_cons, bind_eq_ok_iff]
      constructor
      · intro hgiven
        obtain ⟨b, hb, h⟩ := hgiven
        obtain ⟨bs, hbs, h⟩ := bind_eq_ok_iff.mp h
        cases h
        rw [List.map_cons, List.map_cons, hb, ih.mp hbs]
      · intro h
        cases r with
        | nil => cases h
        | cons b bs =>
            rw [List.map_cons, List.map_cons, List.cons.injEq] at h
            exact ⟨b, h.1, bind_eq_ok_iff.mpr ⟨bs, ih.mpr h.2, rfl⟩⟩

/-- What one site of a marker contributes. -/
def contribution (m : Marker) (read : Site → Text → Text → Except HeaderError (Option α))
    (site : Site) : Except HeaderError (Option α) := do
  let (arguments, rest) ← m.arguments site
  read site arguments rest

/-- **Sites contribute in order.** Where no site fails, the list that is read holds what each site
contributes, in the order of the sites. -/
theorem readSites_eq_ok {m : Marker} {t : Text} {l : List α}
    {read : Site → Text → Text → Except HeaderError (Option α)} (h : readSites m read t = .ok l) :
    l = (m.sites t).filterMap fun site => (contribution m read site).toOption.join := by
  obtain ⟨found, hfound, heq⟩ := bind_eq_ok_iff.mp h
  cases heq
  have hmap : (m.sites t).map (contribution m read) = found.map .ok := mapM_eq_ok_iff.mp hfound
  have hopt := congrArg (List.filterMap fun x => x.toOption.join) hmap
  rw [List.filterMap_map, List.filterMap_map] at hopt
  exact hopt.symm

/-- Sites of which none fails are read. -/
theorem exists_readSites_eq_ok {m : Marker} {t : Text}
    {read : Site → Text → Text → Except HeaderError (Option α)}
    (h : ∀ site ∈ m.sites t, ∃ found, contribution m read site = .ok found) :
    ∃ l, readSites m read t = .ok l := by
  have hfound : ∃ found : List (Option α),
      (m.sites t).map (contribution m read) = found.map .ok := by
    generalize m.sites t = sites at h
    induction sites with
    | nil => exact ⟨[], rfl⟩
    | cons site sites ih =>
        obtain ⟨first, hfirst⟩ := h site List.mem_cons_self
        obtain ⟨others, hothers⟩ := ih fun s hs => h s (List.mem_cons_of_mem _ hs)
        exact ⟨first :: others, by rw [List.map_cons, List.map_cons, hfirst, hothers]⟩
  obtain ⟨found, hfound⟩ := hfound
  exact ⟨found.filterMap id, bind_eq_ok_iff.mpr ⟨found, mapM_eq_ok_iff.mpr hfound, rfl⟩⟩

/-- A header with a class head is read from its enumerations, its head, its properties and its
functions, all without error. -/
theorem readStripped_eq_ok {t : Text} {header : Header} {head : ClassHead}
    (h : readStripped t = .ok (some header)) (hhead : header.head = some head) :
    readSites .enum readEnum t = .ok header.enums ∧ readHead t = .ok (some head) ∧
      readSites .property (fun _ arguments rest => .ok (readProperty arguments rest)) t =
        .ok header.properties ∧
      readSites .function readFunction t = .ok header.functions := by
  rw [readStripped] at h
  split at h
  · cases h
  · obtain ⟨enums, henums, h⟩ := bind_eq_ok_iff.mp h
    split at h
    · cases h
      cases hhead
    · obtain ⟨found, hfound, h⟩ := bind_eq_ok_iff.mp h
      cases found with
      | none => cases h
      | some found =>
          obtain ⟨properties, hproperties, h⟩ := bind_eq_ok_iff.mp h
          obtain ⟨functions, hfunctions, h⟩ := bind_eq_ok_iff.mp h
          cases h
          cases hhead
          exact ⟨henums, hfound, hproperties, hfunctions⟩

end Registrar.Header
