import Registrar.Build.Batch
import Registrar.Proofs.Sites
import Registrar.Proofs.Words

/-!
# Names of entities

An entity has the name of its class, which is a word, or that of its file without the extension.
Neither has a slash, so the files that are generated for an entity stand directly in the output
directory (`ParsedHeader.slash_notMem_name`).
-/

namespace Registrar

/-! ## Class names -/

namespace ClassHead

theorem exists_of_pastExport? {α : Type} {read : Text → Option α} {t : Text} {a : α}
    (h : pastExport? read t = some a) : ∃ t', read t' = some a := by
  unfold pastExport? at h
  split at h
  · next found hfound =>
    cases h
    obtain ⟨rest, -, hrest⟩ := Option.bind_eq_some_iff.mp hfound
    exact ⟨rest, hrest⟩
  · exact ⟨t, h⟩

theorem exists_of_findWord? {α : Type} {read : Text → Option α} {t : Text} {a : α}
    (h : findWord? read t = some a) : ∃ t', read t' = some a := by
  obtain ⟨place, -, hplace⟩ := List.exists_of_findSome?_eq_some h
  split at hplace
  · exact ⟨place.after, hplace⟩
  · cases hplace

theorem isWord_of_readClass? {t name parent : Text} (h : readClass? t = some (name, parent)) :
    ∀ c ∈ name, Text.isWord c = true := by
  unfold readClass? at h
  obtain ⟨_, -, h⟩ := Option.bind_eq_some_iff.mp h
  obtain ⟨_, -, h⟩ := Option.bind_eq_some_iff.mp h
  obtain ⟨start, h⟩ := exists_of_pastExport? h
  unfold nameAndParent? at h
  obtain ⟨⟨word, rest⟩, hword, h⟩ := Option.bind_eq_some_iff.mp h
  obtain ⟨_, -, h⟩ := Option.bind_eq_some_iff.mp h
  obtain ⟨_, -, h⟩ := Option.bind_eq_some_iff.mp h
  obtain ⟨_, -, h⟩ := Option.bind_eq_some_iff.mp h
  obtain ⟨⟨_, _⟩, -, h⟩ := Option.bind_eq_some_iff.mp h
  obtain ⟨rfl, -⟩ := Prod.mk.inj (Option.some.inj h)
  exact Text.isWord_of_takeWord? hword

theorem isWord_of_readStruct? {t name : Text} (h : readStruct? t = some name) :
    ∀ c ∈ name, Text.isWord c = true := by
  unfold readStruct? at h
  obtain ⟨_, -, h⟩ := Option.bind_eq_some_iff.mp h
  obtain ⟨_, -, h⟩ := Option.bind_eq_some_iff.mp h
  obtain ⟨start, h⟩ := exists_of_pastExport? h
  obtain ⟨⟨word, rest⟩, hword, rfl⟩ := Option.map_eq_some_iff.mp h
  exact Text.isWord_of_takeWord? hword

end ClassHead

namespace Header

theorem isWord_of_readHead {t : Text} {head : ClassHead} (h : readHead t = .ok (some head)) :
    ∀ c ∈ head.name, Text.isWord c = true := by
  unfold readHead at h
  split at h
  · obtain ⟨⟨arguments, rest⟩, -, h⟩ := bind_eq_ok_iff.mp h
    obtain ⟨⟨name, parent⟩, hfound, rfl⟩ := Option.map_eq_some_iff.mp (Except.ok.inj h)
    obtain ⟨start, hstart⟩ := ClassHead.exists_of_findWord? hfound
    exact ClassHead.isWord_of_readClass? hstart
  · obtain ⟨⟨arguments, rest⟩, -, h⟩ := bind_eq_ok_iff.mp h
    obtain ⟨name, hfound, rfl⟩ := Option.map_eq_some_iff.mp (Except.ok.inj h)
    obtain ⟨start, hstart⟩ := ClassHead.exists_of_findWord? hfound
    exact ClassHead.isWord_of_readStruct? hstart
  · cases h

theorem isWord_of_read {t : Text} {header : Header} {head : ClassHead}
    (h : read t = .ok (some header)) (hhead : header.head = some head) :
    ∀ c ∈ head.name, Text.isWord c = true := by
  unfold read readStripped at h
  split at h
  · cases h
  · obtain ⟨enums, -, h⟩ := bind_eq_ok_iff.mp h
    split at h
    · cases h
      cases hhead
    · obtain ⟨found, hfound, h⟩ := bind_eq_ok_iff.mp h
      split at h
      · cases h
      · obtain ⟨properties, -, h⟩ := bind_eq_ok_iff.mp h
        obtain ⟨functions, -, h⟩ := bind_eq_ok_iff.mp h
        cases h
        cases hhead
        exact isWord_of_readHead hfound

end Header

/-! ## File names -/

namespace Path

theorem mem_splitWhere_of_mem_parts {p : Path} {part : Text} (h : part ∈ p.parts.body) :
    part ∈ p.splitWhere (· == '/') := by
  unfold parts at h
  split at h
  · next hsplit =>
    rw [hsplit]
    exact List.mem_cons_of_mem _ h
  · next hsplit =>
    rw [hsplit]
    exact List.mem_cons_of_mem _ h
  · exact h

theorem slash_notMem_fileName {p : Path} {name : Text} (h : p.fileName? = some name) :
    '/' ∉ name := by
  unfold fileName? at h
  split at h
  · next n hlast =>
    cases h
    have hmem := List.mem_of_getLast? hlast
    unfold components Parts.components at hmem
    rcases List.mem_append.mp hmem with hstart | hbody
    · -- a path starts with the root or a dot, and with no name
      exfalso
      unfold parts at hstart
      split at hstart <;> simp at hstart
    · obtain ⟨part, hpart, heq⟩ := List.mem_map.mp hbody
      have hname : part = name := by
        unfold Parts.componentOf at heq
        split at heq
        · cases heq
        · exact Component.name.inj heq
      intro hslash
      have hsplit := mem_splitWhere_of_mem_parts (List.mem_filter.mp hpart).1
      simpa using Text.eq_false_of_mem_splitWhere hsplit '/' (hname ▸ hslash)
  · cases h

theorem mem_of_mem_cutExtension {name : Text} {c : Char} (h : c ∈ (cutExtension name).1) :
    c ∈ name := by
  unfold cutExtension at h
  split at h
  · exact h
  · exact h
  · next before extension _ _ hcut =>
    have hsplit : (Text.splitTail (· ≠ '.') name).1 = before := congrArg Prod.fst hcut
    have hmem := List.dropLast_subset before h
    rw [← hsplit] at hmem
    exact List.mem_reverse.mp (List.dropWhile_subset _ (List.mem_reverse.mp hmem))

theorem slash_notMem_stem (p : Path) : '/' ∉ p.stem?.getD [] := by
  unfold stem?
  cases hname : p.fileName? with
  | none => exact List.not_mem_nil
  | some name =>
      intro hslash
      exact slash_notMem_fileName hname (mem_of_mem_cutExtension hslash)

end Path

/-! ## Entities -/

/-- An entity has the name and the kind of its class, and those of its file where there is none. -/
theorem Entity.exists_head_of_ofText {table : MacroTable} {fileStem text : Text} {e : Entity}
    (h : ofText table fileStem text = .ok (some e)) :
    ∃ header, Header.read text = .ok (some header) ∧
      e.name = (header.head.map (·.name)).getD fileStem ∧
      e.kind = (header.head.map (·.kind)).getD .enumOnly := by
  unfold ofText at h
  obtain ⟨found, hfound, h⟩ := Header.bind_eq_ok_iff.mp h
  split at h
  · cases h
  · next header =>
    refine ⟨header, hfound, ?_⟩
    split at h
    · next hhead =>
      cases h
      rw [hhead]
      exact ⟨rfl, rfl⟩
    · next head hhead =>
      obtain ⟨entity, hentity, h⟩ := Header.bind_eq_ok_iff.mp h
      cases h
      obtain ⟨properties, -, hentity⟩ := Header.bind_eq_ok_iff.mp hentity
      cases hentity
      rw [hhead]
      exact ⟨rfl, rfl⟩

theorem Entity.slash_notMem_name {table : MacroTable} {fileStem text : Text} {e : Entity}
    (hstem : '/' ∉ fileStem) (h : ofText table fileStem text = .ok (some e)) : '/' ∉ e.name := by
  obtain ⟨header, hread, hname, -⟩ := exists_head_of_ofText h
  rw [hname]
  cases hhead : header.head with
  | none => exact hstem
  | some head =>
      intro hslash
      have hword := Header.isWord_of_read hread hhead '/' hslash
      revert hword
      decide

/-- A parsed header has the path, the time, the digest and the entity of its file. -/
theorem ParsedHeader.of_read {tree : FileTree} {table : MacroTable} {path : Path}
    {h : ParsedHeader} (hread : read tree table path = .ok h) :
    h.path = path ∧ ∃ contents, tree.readFile path = .ok (contents, h.modified) ∧
      h.hash = Digest.ofBytes contents ∧
      Entity.ofText table (path.stem?.getD []) (Utf8.decodeLossy contents) = .ok h.entity := by
  unfold read at hread
  obtain ⟨⟨contents, modified⟩, hfile, hread⟩ := Header.bind_eq_ok_iff.mp hread
  obtain ⟨entity, hentity, hread⟩ := Header.bind_eq_ok_iff.mp hread
  cases hread
  refine ⟨rfl, contents, ?_, rfl, ?_⟩
  · cases hbytes : tree.readFile path with
    | error e =>
        rw [hbytes] at hfile
        cases hfile
    | ok read =>
        rw [hbytes] at hfile
        cases hfile
        rfl
  · cases hparse : Entity.ofText table (path.stem?.getD []) (Utf8.decodeLossy contents) with
    | error e =>
        rw [hparse] at hentity
        cases hentity
    | ok found =>
        rw [hparse] at hentity
        cases hentity
        rfl

theorem ParsedHeader.slash_notMem_name {tree : FileTree} {table : MacroTable} {path : Path}
    {h : ParsedHeader} {e : Entity} (hread : read tree table path = .ok h)
    (he : h.entity = some e) : '/' ∉ e.name := by
  obtain ⟨-, contents, -, -, hentity⟩ := of_read hread
  rw [he] at hentity
  exact Entity.slash_notMem_name (Path.slash_notMem_stem path) hentity

/-! ## Batches -/

namespace Batch

variable {tree : FileTree} {table : MacroTable} {paths : List Path}

theorem mem_parsed_iff {h : ParsedHeader} :
    h ∈ (read tree table paths).parsed ↔
      ∃ path ∈ paths, ParsedHeader.read tree table path = .ok h := by
  unfold read ofResults
  rw [List.mem_filterMap]
  constructor
  · rintro ⟨result, hresult, hsome⟩
    obtain ⟨path, hpath, hread⟩ := List.mem_map.mp hresult
    cases result with
    | error e => cases hsome
    | ok found =>
        cases hsome
        exact ⟨path, hpath, hread⟩
  · rintro ⟨path, hpath, hread⟩
    exact ⟨.ok h, List.mem_map.mpr ⟨path, hpath, hread⟩, rfl⟩

/-- The parsed headers are in the order of the batch. -/
theorem path_sublist (tree : FileTree) (table : MacroTable) (paths : List Path) :
    ((read tree table paths).parsed.map (·.path)).Sublist paths := by
  induction paths with
  | nil => exact .slnil
  | cons path rest ih =>
      cases hread : ParsedHeader.read tree table path with
      | error e =>
          have hparsed : (read tree table (path :: rest)).parsed =
              (read tree table rest).parsed := by
            simp [read, ofResults, hread]
          rw [hparsed]
          exact ih.cons path
      | ok h =>
          have hparsed : (read tree table (path :: rest)).parsed =
              h :: (read tree table rest).parsed := by
            simp [read, ofResults, hread]
          rw [hparsed, List.map_cons, (ParsedHeader.of_read hread).1]
          exact ih.cons_cons path

/-- In a batch without failures every header is parsed. -/
theorem exists_mem_parsed (h : (read tree table paths).failures = []) {path : Path}
    (hpath : path ∈ paths) : ∃ h ∈ (read tree table paths).parsed, h.path = path := by
  cases hread : ParsedHeader.read tree table path with
  | ok found =>
      exact ⟨found, mem_parsed_iff.mpr ⟨path, hpath, hread⟩, (ParsedHeader.of_read hread).1⟩
  | error e =>
      have hmem : e ∈ (read tree table paths).failures :=
        List.mem_filterMap.mpr ⟨.error e, List.mem_map.mpr ⟨path, hpath, hread⟩, rfl⟩
      rw [h] at hmem
      exact absurd hmem List.not_mem_nil

end Batch

end Registrar
