import Registrar.Proofs.Brackets
import Registrar.Proofs.Sites

/-!
# Markers that never close

A header is refused for one reason only: a delimiter that belongs to a live marker never closes. The
error names the marker and where it starts. Which of several is named follows from the order of
reading: enumerations first, then the head, the properties and the functions, and each kind from
left to right (`Header.readStripped_eq_error_iff`).
-/

namespace Registrar

namespace Text

variable {opener closer : Char} {t : Text}

/-- Just after an opener, no front part of the text closes more brackets than it opens, so that the
opener is never closed. -/
def Unclosed (opener closer : Char) (t : Text) : Prop :=
  ∀ front, front <+: t → front.count closer ≤ front.count opener

/-- The closer is not found exactly when there is none. -/
theorem balanced?_eq_none_iff (hne : opener ≠ closer) :
    t.balanced? opener closer = none ↔ Unclosed opener closer t := by
  constructor
  · intro h front hfront
    have hnone : closing? opener closer 0 front = none := by
      cases hfound : closing? opener closer 0 front with
      | none => rfl
      | some found =>
          -- a closer in a front part is one in the whole text
          obtain ⟨rest, rfl⟩ := hfront
          obtain ⟨rfl, hinner⟩ := (closing?_eq_some_iff hne).mp hfound
          have hwhole : (found.1 ++ closer :: found.2 ++ rest).balanced? opener closer =
              some (found.1, found.2 ++ rest) :=
            (balanced?_eq_some_iff hne).mpr ⟨by simp, hinner⟩
          rw [hwhole] at h
          cases h
    have hcount := count_le_of_closing?_eq_none hne hnone
    omega
  · intro h
    cases hfound : t.balanced? opener closer with
    | none => rfl
    | some found =>
        obtain ⟨rfl, hinner⟩ := (balanced?_eq_some_iff hne).mp hfound
        have hclosed := h (found.1 ++ [closer]) ⟨found.2, by simp⟩
        have hwhole := hinner.whole
        simp only [List.count_append, List.count_cons_self, List.count_nil,
          List.count_cons_of_ne (Ne.symm hne)] at hclosed
        omega

theorem parenthesised?_eq_none_iff : t.parenthesised? = none ↔ Unclosed '(' ')' t :=
  balanced?_eq_none_iff (by decide)

/-- The places of a text come in the order of their offsets. -/
theorem pairwise_offset_placesFrom (before t : Text) :
    (placesFrom before t).Pairwise fun p q => p.offset < q.offset := by
  induction t generalizing before with
  | nil => exact List.pairwise_singleton _ _
  | cons c r ih =>
      refine List.pairwise_cons.mpr ⟨fun q hq => ?_, ih (c :: before)⟩
      have hle := le_offset_of_mem_placesFrom hq
      have hpos := c.utf8Size_pos
      rw [byteLength] at hle
      show byteLength before < q.offset
      omega

end Text

namespace Marker

variable {m : Marker} {site : Site} {t : Text} {err : HeaderError}

theorem pairwise_offset_sites (m : Marker) (t : Text) :
    (m.sites t).Pairwise fun s s' => s.place.offset < s'.place.offset := by
  refine (Text.pairwise_offset_placesFrom [] t).filterMap _ ?_
  intro p q hlt s hs s' hs'
  rw [(siteAt?_eq_some_iff.mp hs).2.2.2, (siteAt?_eq_some_iff.mp hs').2.2.2]
  exact hlt

/-- The offset of a site counts the text before its marker. -/
theorem exists_written_of_mem_sites (h : site ∈ m.sites t) :
    ∃ before space, t = before ++ (m.word ++ space ++ '(' :: site.rest) ∧
      (∀ c ∈ space, Text.isBlank c = true) ∧ site.place.offset = Text.byteLength before := by
  obtain ⟨p, hp, hsite⟩ := List.mem_filterMap.mp h
  obtain ⟨hcall, -, -, hplace⟩ := siteAt?_eq_some_iff.mp hsite
  obtain ⟨before, after, rfl, rfl⟩ := Text.mem_placesFrom_iff.mp hp
  obtain ⟨space, hspace, hafter⟩ := eq_of_takeCall? hcall
  refine ⟨before, space, congrArg (before ++ ·) hafter, hspace, ?_⟩
  rw [hplace]
  simp [Place.offset, Text.byteLength_reverse]

theorem arguments_eq_error_iff : m.arguments site = .error err ↔
    Text.Unclosed '(' ')' site.rest ∧ err = .unbalanced m site.place.offset := by
  unfold arguments
  rw [← Text.parenthesised?_eq_none_iff]
  cases site.rest.parenthesised? with
  | none => simp [eq_comm]
  | some found => simp

/-- The declaration behind the arguments of a marker opens a group that never closes: the body of an
enumeration, or the parameters of a function. -/
inductive OpensGroup : Marker → (rest : Text) → Prop
  | body {rest name underlying body : Text}
      (head : Enumeration.takeHead? rest = some (name, underlying, body))
      (unclosed : Text.Unclosed '{' '}' body) : OpensGroup .enum rest
  | parameters {rest before name parameters : Text}
      (head : FunctionDeclaration.takeHead? rest = some (before, name, parameters))
      (typed : FunctionDeclaration.stripSpecifiers before ≠ [])
      (unclosed : Text.Unclosed '(' ')' parameters) : OpensGroup .function rest

/-- A delimiter that a marker introduces at a site never closes: that of its arguments, or that of
the declaration behind them. -/
def Offends (m : Marker) (site : Site) : Prop :=
  Text.Unclosed '(' ')' site.rest ∨
    ∃ arguments rest, site.rest.parenthesised? = some (arguments, rest) ∧ m.OpensGroup rest

/-- The first site of a marker in a text at which a delimiter never closes. -/
structure FirstOffence (m : Marker) (t : Text) (site : Site) : Prop where
  live : site ∈ m.sites t
  offends : m.Offends site
  first : ∀ s ∈ m.sites t, m.Offends s → site.place.offset ≤ s.place.offset

end Marker

namespace Header

open Marker (FirstOffence Offends OpensGroup)

variable {t : Text} {err : HeaderError}

section Sites

variable {α β ε : Type} {m : Marker}
  {read : Site → Text → Text → Except HeaderError (Option α)}

/-- A computation for each element of a list fails at the first that fails. -/
theorem mapM_eq_error_iff {f : α → Except ε β} {l : List α} {e : ε} :
    l.mapM f = .error e ↔ ∃ earlier a later, l = earlier ++ a :: later ∧
      (∀ b ∈ earlier, ∃ c, f b = .ok c) ∧ f a = .error e := by
  induction l with
  | nil =>
      constructor
      · intro h
        cases h
      · intro hgiven
        obtain ⟨earlier, a, later, hl, -⟩ := hgiven
        simp at hl
  | cons b l ih =>
      rw [List.mapM_cons]
      cases hb : f b with
      | error e' =>
          constructor
          · intro h
            cases h
            exact ⟨[], b, l, rfl, fun _ hmem => (by cases hmem), hb⟩
          · intro hgiven
            obtain ⟨earlier, a, later, hl, hok, ha⟩ := hgiven
            cases earlier with
            | nil =>
                cases hl
                rw [hb] at ha
                cases ha
                rfl
            | cons c earlier =>
                cases hl
                obtain ⟨c, hc⟩ := hok b List.mem_cons_self
                rw [hb] at hc
                cases hc
      | ok c =>
          have hrest : (l.mapM f >>= fun cs => pure (c :: cs)) = .error e ↔
              l.mapM f = .error e := by
            cases l.mapM f <;> simp [bind, Except.bind, pure, Except.pure]
          refine hrest.trans (ih.trans ⟨?_, ?_⟩)
          · intro hgiven
            obtain ⟨earlier, a, later, rfl, hok, ha⟩ := hgiven
            refine ⟨b :: earlier, a, later, rfl, fun d hd => ?_, ha⟩
            rcases List.mem_cons.mp hd with rfl | hd
            · exact ⟨c, hb⟩
            · exact hok d hd
          · intro hgiven
            obtain ⟨earlier, a, later, hl, hok, ha⟩ := hgiven
            cases earlier with
            | nil =>
                cases hl
                rw [hb] at ha
                cases ha
            | cons d earlier =>
                cases hl
                exact ⟨earlier, a, later, rfl, fun x hx => hok x (List.mem_cons_of_mem _ hx), ha⟩

/-- A reader of declarations fails where the declaration opens a group that never closes, and says
where its marker starts. -/
def Exact (m : Marker) (read : Site → Text → Text → Except HeaderError (Option α)) : Prop :=
  ∀ site arguments rest err, read site arguments rest = .error err ↔
    m.OpensGroup rest ∧ err = .unbalanced m site.place.offset

theorem contribution_eq_error_iff (hread : Exact m read) {site : Site} :
    contribution m read site = .error err ↔
      m.Offends site ∧ err = .unbalanced m site.place.offset := by
  have hnone := Text.parenthesised?_eq_none_iff (t := site.rest)
  unfold contribution Offends
  rw [← hnone]
  unfold Marker.arguments
  cases hargs : site.rest.parenthesised? with
  | none => simp [bind, Except.bind, eq_comm]
  | some found =>
      obtain ⟨arguments, rest⟩ := found
      refine (hread site arguments rest err).trans (and_congr_left fun _ => ⟨?_, ?_⟩)
      · intro hgroup
        exact Or.inr ⟨arguments, rest, rfl, hgroup⟩
      · intro hoffends
        rcases hoffends with h | ⟨arguments', rest', h, hgroup⟩
        · cases h
        · cases h
          exact hgroup

/-- Sites are refused at the first of them at which a delimiter never closes. -/
theorem readSites_eq_error_iff (hread : Exact m read) :
    readSites m read t = .error err ↔
      ∃ site, FirstOffence m t site ∧ err = .unbalanced m site.place.offset := by
  have hmap : readSites m read t = .error err ↔
      (m.sites t).mapM (contribution m read) = .error err := by
    unfold readSites
    show ((m.sites t).mapM (contribution m read) >>= fun found => pure (found.filterMap id)) =
      .error err ↔ _
    cases (m.sites t).mapM (contribution m read) <;> simp [bind, Except.bind, pure, Except.pure]
  rw [hmap, mapM_eq_error_iff]
  have horder := m.pairwise_offset_sites t
  constructor
  · intro hgiven
    obtain ⟨earlier, site, later, hsites, hok, hsite⟩ := hgiven
    obtain ⟨hoffends, rfl⟩ := (contribution_eq_error_iff hread).mp hsite
    refine ⟨site, ⟨by simp [hsites], hoffends, fun s hs hs' => ?_⟩, rfl⟩
    rw [hsites] at hs horder
    rcases List.mem_append.mp hs with hs | hs
    · -- no site before the first offence offends
      obtain ⟨found, hfound⟩ := hok s hs
      have herror := (contribution_eq_error_iff hread).mpr ⟨hs', rfl⟩
      rw [hfound] at herror
      cases herror
    · have hlater := (List.pairwise_cons.mp (List.pairwise_append.mp horder).2.1).1
      rcases List.mem_cons.mp hs with rfl | hs
      · exact Nat.le_refl _
      · exact Nat.le_of_lt (hlater s hs)
  · intro hgiven
    obtain ⟨site, hfirst, rfl⟩ := hgiven
    obtain ⟨earlier, later, hsites⟩ := List.append_of_mem hfirst.live
    refine ⟨earlier, site, later, hsites, fun s hs => ?_, ?_⟩
    · rw [hsites] at horder
      have hbefore := (List.pairwise_append.mp horder).2.2 s hs site List.mem_cons_self
      cases hcontribution : contribution m read s with
      | ok found => exact ⟨found, rfl⟩
      | error e =>
          obtain ⟨hoffends, -⟩ := (contribution_eq_error_iff hread).mp hcontribution
          have hle := hfirst.first s (by simp [hsites, hs]) hoffends
          omega
    · exact (contribution_eq_error_iff hread).mpr ⟨hfirst.offends, rfl⟩

/-- Where a site offends, there is a first that does. -/
theorem exists_firstOffence {site : Site} (hsite : site ∈ m.sites t) (h : m.Offends site) :
    ∃ first, FirstOffence m t first := by
  -- descend on the offset for as long as an earlier site offends
  generalize hn : site.place.offset = n
  induction n using Nat.strongRecOn generalizing site with
  | ind n ih =>
      by_cases hearlier : ∃ s ∈ m.sites t, m.Offends s ∧ s.place.offset < n
      · obtain ⟨s, hs, hoffends, hlt⟩ := hearlier
        exact ih s.place.offset hlt hs hoffends rfl
      · refine ⟨site, hsite, h, fun s hs hoffends => ?_⟩
        apply Nat.le_of_not_lt
        intro hlt
        exact hearlier ⟨s, hs, hoffends, hn ▸ hlt⟩

end Sites

/-! ## The three readers -/

theorem exact_readEnum : Exact .enum readEnum := by
  intro site arguments rest err
  unfold readEnum
  cases hhead : Enumeration.takeHead? rest with
  | none =>
      refine ⟨fun h => (by cases h), fun h => ?_⟩
      cases h.1 with
      | body head unclosed =>
          rw [hhead] at head
          cases head
  | some found =>
      obtain ⟨name, underlying, body⟩ := found
      dsimp only
      have hnone : body.balanced? '{' '}' = none ↔ Text.Unclosed '{' '}' body :=
        Text.balanced?_eq_none_iff (by decide)
      cases hbody : body.balanced? '{' '}' with
      | none =>
          constructor
          · intro h
            cases h
            exact ⟨.body hhead (hnone.mp hbody), rfl⟩
          · intro h
            rw [h.2]
      | some closed =>
          refine ⟨fun h => (by cases h), fun h => ?_⟩
          cases h.1 with
          | body head unclosed =>
              rw [hhead] at head
              cases head
              rw [hnone.mpr unclosed] at hbody
              cases hbody

theorem exact_readFunction : Exact .function readFunction := by
  intro site arguments rest err
  unfold readFunction
  cases hhead : FunctionDeclaration.takeHead? rest with
  | none =>
      refine ⟨fun h => (by cases h), fun h => ?_⟩
      cases h.1 with
      | parameters head typed unclosed =>
          rw [hhead] at head
          cases head
  | some found =>
      obtain ⟨before, name, parameters⟩ := found
      dsimp only
      have hnone := Text.parenthesised?_eq_none_iff (t := parameters)
      by_cases htype : FunctionDeclaration.stripSpecifiers before = []
      · rw [if_pos htype]
        refine ⟨fun h => (by cases h), fun h => ?_⟩
        cases h.1 with
        | parameters head typed unclosed =>
            rw [hhead] at head
            cases head
            exact absurd htype typed
      · rw [if_neg htype]
        cases hparameters : parameters.parenthesised? with
        | none =>
            constructor
            · intro h
              cases h
              exact ⟨.parameters hhead htype (hnone.mp hparameters), rfl⟩
            · intro h
              rw [h.2]
        | some closed =>
            refine ⟨fun h => (by cases h), fun h => ?_⟩
            cases h.1 with
            | parameters head typed unclosed =>
                rw [hhead] at head
                cases head
                rw [hnone.mpr unclosed] at hparameters
                cases hparameters

theorem exact_readProperty :
    Exact .property fun _ arguments rest => .ok (readProperty arguments rest) := by
  intro site arguments rest err
  exact ⟨fun h => (by cases h), fun h => (by cases h.1)⟩

/-! ## The head -/

/-- The site that announces the head of the reflected class: the first class marker or, without any,
the first structure marker. -/
inductive HeadSite (t : Text) : Marker → Site → Prop
  | class_ {site : Site} {later : List Site} (first : Marker.class_.sites t = site :: later) :
      HeadSite t .class_ site
  | struct_ {site : Site} {later : List Site} (none : Marker.class_.sites t = [])
      (first : Marker.struct_.sites t = site :: later) : HeadSite t .struct_ site

/-- The declaration of a class, or of a structure, stands somewhere behind the arguments of the
marker. -/
inductive NamesHead : Marker → (rest : Text) → Prop
  | class_ {rest name parent : Text}
      (found : ClassHead.findWord? ClassHead.readClass? rest = some (name, parent)) :
      NamesHead .class_ rest
  | struct_ {rest name : Text}
      (found : ClassHead.findWord? ClassHead.readStruct? rest = some name) : NamesHead .struct_ rest

/-- The marker of the head closes and its declaration follows. -/
def Headed (t : Text) : Prop :=
  ∃ m site arguments rest, HeadSite t m site ∧ site.rest.parenthesised? = some (arguments, rest) ∧
    NamesHead m rest

/-- The marker of the head stands before every other of its kind. -/
theorem HeadSite.firstOffence {m : Marker} {site : Site} (hsite : HeadSite t m site)
    (hoffends : m.Offends site) : FirstOffence m t site := by
  have hfirst : ∃ later, m.sites t = site :: later := by
    cases hsite with
    | class_ first => exact ⟨_, first⟩
    | struct_ none first => exact ⟨_, first⟩
  obtain ⟨later, hsites⟩ := hfirst
  have horder := m.pairwise_offset_sites t
  rw [hsites, List.pairwise_cons] at horder
  refine ⟨by simp [hsites], hoffends, fun s hs _ => ?_⟩
  rw [hsites] at hs
  rcases List.mem_cons.mp hs with rfl | hs
  · exact Nat.le_refl _
  · exact Nat.le_of_lt (horder.1 s hs)

/-- The head is read from the text behind the arguments of its marker. -/
theorem HeadSite.readHead_eq {m : Marker} {site : Site} (hsite : HeadSite t m site) :
    ∃ found : Text → Text → Option ClassHead,
      readHead t = (m.arguments site >>= fun parts => .ok (found parts.1 parts.2)) ∧
        ∀ arguments rest, (∃ head, found arguments rest = some head) ↔ NamesHead m rest := by
  cases hsite with
  | class_ first =>
      refine ⟨fun arguments rest => (ClassHead.findWord? ClassHead.readClass? rest).map fun names =>
        ⟨.class_, names.1, names.2, arguments⟩, ?_, fun arguments rest => ⟨?_, ?_⟩⟩
      · unfold readHead
        rw [first]
        rfl
      · intro hfound
        obtain ⟨head, hhead⟩ := hfound
        obtain ⟨names, hnames, -⟩ := Option.map_eq_some_iff.mp hhead
        exact .class_ hnames
      · intro hnames
        cases hnames with
        | class_ found => exact ⟨_, Option.map_eq_some_iff.mpr ⟨_, found, rfl⟩⟩
  | struct_ none first =>
      refine ⟨fun arguments rest => (ClassHead.findWord? ClassHead.readStruct? rest).map fun name =>
        ⟨.struct_, name, [], arguments⟩, ?_, fun arguments rest => ⟨?_, ?_⟩⟩
      · unfold readHead
        rw [none, first]
        rfl
      · intro hfound
        obtain ⟨head, hhead⟩ := hfound
        obtain ⟨name, hname, -⟩ := Option.map_eq_some_iff.mp hhead
        exact .struct_ hname
      · intro hnames
        cases hnames with
        | struct_ found => exact ⟨_, Option.map_eq_some_iff.mpr ⟨_, found, rfl⟩⟩

theorem HeadSite.unique {m m' : Marker} {site site' : Site} (h : HeadSite t m site)
    (h' : HeadSite t m' site') : m' = m ∧ site' = site := by
  cases h <;> cases h' <;> simp_all

theorem readHead_of_forall_not_headSite (h : ∀ m site, ¬ HeadSite t m site) :
    readHead t = .ok none := by
  unfold readHead
  split
  · next hsites => exact absurd (.class_ hsites) (h _ _)
  · next hnone hsites => exact absurd (.struct_ hnone hsites) (h _ _)
  · rfl

theorem readHead_eq_error_iff : readHead t = .error err ↔ ∃ m site, HeadSite t m site ∧
    Text.Unclosed '(' ')' site.rest ∧ err = .unbalanced m site.place.offset := by
  by_cases hsite : ∃ m site, HeadSite t m site
  · obtain ⟨m, site, hsite⟩ := hsite
    obtain ⟨found, heq, -⟩ := hsite.readHead_eq
    have harguments : readHead t = .error err ↔ m.arguments site = .error err := by
      rw [heq]
      cases m.arguments site <;> simp [bind, Except.bind]
    rw [harguments, Marker.arguments_eq_error_iff]
    constructor
    · intro h
      exact ⟨m, site, hsite, h⟩
    · intro hgiven
      obtain ⟨m', site', hsite', h⟩ := hgiven
      obtain ⟨rfl, rfl⟩ := hsite.unique hsite'
      exact h
  · have hnone := readHead_of_forall_not_headSite fun m site h => hsite ⟨m, site, h⟩
    rw [hnone]
    refine ⟨fun h => (by cases h), fun hgiven => ?_⟩
    obtain ⟨m, site, h, -⟩ := hgiven
    exact absurd ⟨m, site, h⟩ hsite

theorem exists_readHead_iff : (∃ head, readHead t = .ok (some head)) ↔ Headed t := by
  by_cases hsite : ∃ m site, HeadSite t m site
  · obtain ⟨m, site, hsite⟩ := hsite
    obtain ⟨found, heq, hfound⟩ := hsite.readHead_eq
    rw [heq]
    unfold Marker.arguments
    constructor
    · intro hgiven
      obtain ⟨head, hhead⟩ := hgiven
      cases harguments : site.rest.parenthesised? with
      | none =>
          rw [harguments] at hhead
          cases hhead
      | some parts =>
          rw [harguments] at hhead
          exact ⟨m, site, parts.1, parts.2, hsite, harguments,
            (hfound _ _).mp ⟨head, Except.ok.inj hhead⟩⟩
    · intro hgiven
      obtain ⟨m', site', arguments, rest, hsite', harguments, hnames⟩ := hgiven
      obtain ⟨rfl, rfl⟩ := hsite.unique hsite'
      obtain ⟨head, hhead⟩ := (hfound arguments rest).mpr hnames
      rw [harguments]
      exact ⟨head, congrArg Except.ok hhead⟩
  · have hnone := readHead_of_forall_not_headSite fun m site h => hsite ⟨m, site, h⟩
    constructor
    · intro hgiven
      obtain ⟨head, hhead⟩ := hgiven
      rw [hnone] at hhead
      cases hhead
    · intro hgiven
      obtain ⟨m, site, -, -, h, -⟩ := hgiven
      exact absurd ⟨m, site, h⟩ hsite

/-! ## The whole header -/

/-- The error of a header that is refused. Enumerations come before the head, the head before the
properties and the properties before the functions. -/
inductive Refused (t : Text) : HeaderError → Prop
  | enum {site : Site} (first : FirstOffence .enum t site) :
      Refused t (.unbalanced .enum site.place.offset)
  | head {m : Marker} {site : Site} (enums : ∀ s ∈ Marker.enum.sites t, ¬ Marker.enum.Offends s)
      (asks : asksForBody t = true) (selected : HeadSite t m site)
      (unclosed : Text.Unclosed '(' ')' site.rest) : Refused t (.unbalanced m site.place.offset)
  | property {site : Site} (enums : ∀ s ∈ Marker.enum.sites t, ¬ Marker.enum.Offends s)
      (asks : asksForBody t = true) (headed : Headed t) (first : FirstOffence .property t site) :
      Refused t (.unbalanced .property site.place.offset)
  | function {site : Site} (enums : ∀ s ∈ Marker.enum.sites t, ¬ Marker.enum.Offends s)
      (asks : asksForBody t = true) (headed : Headed t)
      (properties : ∀ s ∈ Marker.property.sites t, ¬ Marker.property.Offends s)
      (first : FirstOffence .function t site) : Refused t (.unbalanced .function site.place.offset)

theorem bind_eq_error_iff {α β ε : Type} {x : Except ε α} {f : α → Except ε β} {e : ε} :
    x >>= f = .error e ↔ x = .error e ∨ ∃ a, x = .ok a ∧ f a = .error e := by
  cases x <;> simp [bind, Except.bind]

/-- Sites are all read where none offends. -/
theorem exists_readSites_iff {α : Type} {m : Marker}
    {read : Site → Text → Text → Except HeaderError (Option α)} (hread : Exact m read) :
    (∃ found, readSites m read t = .ok found) ↔ ∀ s ∈ m.sites t, ¬ m.Offends s := by
  constructor
  · intro hgiven s hs hoffends
    obtain ⟨found, hfound⟩ := hgiven
    obtain ⟨first, hfirst⟩ := exists_firstOffence hs hoffends
    have herror := (readSites_eq_error_iff hread).mpr ⟨first, hfirst, rfl⟩
    rw [hfound] at herror
    cases herror
  · intro h
    cases hfound : readSites m read t with
    | ok found => exact ⟨found, rfl⟩
    | error e =>
        obtain ⟨first, hfirst, -⟩ := (readSites_eq_error_iff hread).mp hfound
        exact absurd hfirst.offends (h first hfirst.live)

theorem refused_of_readStripped (h : readStripped t = .error err) : Refused t err := by
  rw [readStripped] at h
  split at h
  · cases h
  · rcases bind_eq_error_iff.mp h with henums | ⟨enums, henums, h⟩
    · obtain ⟨site, hfirst, rfl⟩ := (readSites_eq_error_iff exact_readEnum).mp henums
      exact .enum hfirst
    · have hnone := (exists_readSites_iff exact_readEnum).mp ⟨enums, henums⟩
      split at h
      · cases h
      · next hasks =>
        have hbody : asksForBody t = true := by simpa using hasks
        rcases bind_eq_error_iff.mp h with hhead | ⟨found, hfound, h⟩
        · obtain ⟨m, site, hsite, hunclosed, rfl⟩ := readHead_eq_error_iff.mp hhead
          exact .head hnone hbody hsite hunclosed
        · cases found with
          | none => cases h
          | some head =>
              have hheaded := exists_readHead_iff.mp ⟨head, hfound⟩
              rcases bind_eq_error_iff.mp h with hproperties | ⟨properties, hproperties, h⟩
              · obtain ⟨site, hfirst, rfl⟩ :=
                  (readSites_eq_error_iff exact_readProperty).mp hproperties
                exact .property hnone hbody hheaded hfirst
              · have hclosed := (exists_readSites_iff exact_readProperty).mp ⟨_, hproperties⟩
                rcases bind_eq_error_iff.mp h with hfunctions | ⟨functions, -, h⟩
                · obtain ⟨site, hfirst, rfl⟩ :=
                    (readSites_eq_error_iff exact_readFunction).mp hfunctions
                  exact .function hnone hbody hheaded hclosed hfirst
                · cases h

theorem readStripped_of_refused (h : Refused t err) : readStripped t = .error err := by
  -- each error needs the readings before it to succeed
  have enumsRead : (∀ s ∈ Marker.enum.sites t, ¬ Marker.enum.Offends s) →
      ∃ enums, readSites .enum readEnum t = .ok enums := (exists_readSites_iff exact_readEnum).mpr
  unfold readStripped
  cases h with
  | enum first =>
      have hsome : (Marker.enum.sites t).isEmpty = false :=
        List.isEmpty_eq_false_iff.mpr (List.ne_nil_of_mem first.live)
      have herror := (readSites_eq_error_iff exact_readEnum).mpr ⟨_, first, rfl⟩
      simp [hsome, herror, bind, Except.bind]
  | head enums asks selected unclosed =>
      obtain ⟨found, hfound⟩ := enumsRead enums
      have herror := readHead_eq_error_iff.mpr ⟨_, _, selected, unclosed, rfl⟩
      simp [asks, hfound, herror, bind, Except.bind]
  | property enums asks headed first =>
      obtain ⟨found, hfound⟩ := enumsRead enums
      obtain ⟨head, hhead⟩ := exists_readHead_iff.mpr headed
      have herror := (readSites_eq_error_iff exact_readProperty).mpr ⟨_, first, rfl⟩
      simp [asks, hfound, hhead, herror, bind, Except.bind]
  | function enums asks headed properties first =>
      obtain ⟨found, hfound⟩ := enumsRead enums
      obtain ⟨head, hhead⟩ := exists_readHead_iff.mpr headed
      obtain ⟨declared, hdeclared⟩ := (exists_readSites_iff exact_readProperty).mpr properties
      have herror := (readSites_eq_error_iff exact_readFunction).mpr ⟨_, first, rfl⟩
      simp [asks, hfound, hhead, hdeclared, herror, bind, Except.bind]

/-- Exactly these headers are refused. -/
theorem readStripped_eq_error_iff : readStripped t = .error err ↔ Refused t err :=
  ⟨refused_of_readStripped, readStripped_of_refused⟩

/-- A refusal names the first offence of a live marker, and an enumeration wherever one offends. -/
theorem Refused.names (h : Refused t err) : ∃ m site, FirstOffence m t site ∧
    err = .unbalanced m site.place.offset ∧
      (m ≠ .enum → ∀ s ∈ Marker.enum.sites t, ¬ Marker.enum.Offends s) := by
  cases h with
  | enum first => exact ⟨_, _, first, rfl, fun hne => absurd rfl hne⟩
  | head enums asks selected unclosed =>
      exact ⟨_, _, selected.firstOffence (Or.inl unclosed), rfl, fun _ => enums⟩
  | property enums asks headed first => exact ⟨_, _, first, rfl, fun _ => enums⟩
  | function enums asks headed properties first => exact ⟨_, _, first, rfl, fun _ => enums⟩

/-- An enumeration that offends refuses the header. -/
theorem exists_refused_of_enum {site : Site} (hsite : site ∈ Marker.enum.sites t)
    (h : Marker.enum.Offends site) : ∃ err, Refused t err := by
  obtain ⟨first, hfirst⟩ := exists_firstOffence hsite h
  exact ⟨_, .enum hfirst⟩

/-- Behind a head, a property or a function that offends refuses the header. -/
theorem exists_refused_of_member {m : Marker} {site : Site} (hasks : asksForBody t = true)
    (hheaded : Headed t) (hm : m = .property ∨ m = .function) (hsite : site ∈ m.sites t)
    (h : m.Offends site) : ∃ err, Refused t err := by
  by_cases henum : ∃ s ∈ Marker.enum.sites t, Marker.enum.Offends s
  · obtain ⟨s, hs, hoffends⟩ := henum
    exact exists_refused_of_enum hs hoffends
  · have enums : ∀ s ∈ Marker.enum.sites t, ¬ Marker.enum.Offends s :=
      fun s hs hoffends => henum ⟨s, hs, hoffends⟩
    by_cases hproperty : ∃ s ∈ Marker.property.sites t, Marker.property.Offends s
    · obtain ⟨s, hs, hoffends⟩ := hproperty
      obtain ⟨first, hfirst⟩ := exists_firstOffence hs hoffends
      exact ⟨_, .property enums hasks hheaded hfirst⟩
    · have properties : ∀ s ∈ Marker.property.sites t, ¬ Marker.property.Offends s :=
        fun s hs hoffends => hproperty ⟨s, hs, hoffends⟩
      rcases hm with rfl | rfl
      · exact absurd h (properties site hsite)
      · obtain ⟨first, hfirst⟩ := exists_firstOffence hsite h
        exact ⟨_, .function enums hasks hheaded properties hfirst⟩

/-- A header is refused only for a delimiter of a live marker that never closes. The error names the
first marker of its kind with such a delimiter and counts the text before it, and no enumeration has
one where it names another kind. An enumeration with one always refuses the header; behind the head
of a class that asks for its body, so do the arguments of a property or a function. -/
theorem read_error_unclosed (text : Text) :
    (∀ err, read text = .error err → ∃ m site, FirstOffence m text.stripComments site ∧
      err = .unbalanced m site.place.offset ∧
      (∃ before space, text.stripComments = before ++ (m.word ++ space ++ '(' :: site.rest) ∧
        (∀ c ∈ space, Text.isBlank c = true) ∧ site.place.offset = Text.byteLength before) ∧
      (m ≠ .enum → ∀ s ∈ Marker.enum.sites text.stripComments, ¬ Marker.enum.Offends s)) ∧
    (∀ site ∈ Marker.enum.sites text.stripComments, Marker.enum.Offends site →
      ∃ err, read text = .error err) ∧
    (asksForBody text.stripComments = true → Headed text.stripComments →
      ∀ m : Marker, m = .property ∨ m = .function → ∀ site ∈ m.sites text.stripComments,
        Text.Unclosed '(' ')' site.rest → ∃ err, read text = .error err) := by
  have hiff : ∀ err, read text = .error err ↔ Refused text.stripComments err :=
    fun err => readStripped_eq_error_iff
  simp only [hiff]
  refine ⟨fun err h => ?_, fun site hsite h => exists_refused_of_enum hsite h, ?_⟩
  · obtain ⟨m, site, hfirst, herr, henums⟩ := h.names
    exact ⟨m, site, hfirst, herr, Marker.exists_written_of_mem_sites hfirst.live, henums⟩
  · intro hasks hheaded m hm site hsite hunclosed
    exact exists_refused_of_member hasks hheaded hm hsite (Or.inl hunclosed)

/-- A property whose arguments never close, in a structure that asks for its body. -/
theorem read_error_unclosed_property :
    ∃ err, read "USTRUCT()struct A\x7bGENERATED_REFLECTION_BODY()UPROPERTY(" = .error err :=
  (read_error_unclosed _).2.2 (by decide)
    (exists_readHead_iff.mp ⟨⟨.struct_, "A", [], []⟩, by decide⟩) .property (Or.inl rfl)
    ⟨⟨"USTRUCT()struct A\x7bGENERATED_REFLECTION_BODY()".toList.reverse, "UPROPERTY("⟩, []⟩
    (by decide) (Text.parenthesised?_eq_none_iff.mp rfl)

end Header

end Registrar
