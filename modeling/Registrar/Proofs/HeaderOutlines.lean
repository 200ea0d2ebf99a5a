import Registrar.Build.Batch

/-!
# What is known of headers whatever the macros

The macros say how the properties of an entity are classified, and nothing else. Whether a header
can be read and parsed, whether it is reflected, and the name and the kind of its entity are the
same with other macros (`Entity.identity_ofText`), and so is all else that a build records of it
(`Batch.outline_read`).
-/

namespace Registrar

section Mapped

variable {ε α β : Type} {f : α → β} {x : Except ε α}

theorem eq_error_of_map {err : ε} (h : x.map f = .error err) : x = .error err := by
  cases x with
  | error err' => exact congrArg _ (Except.error.inj h)
  | ok a => cases h

theorem exists_of_map {b : β} (h : x.map f = .ok b) : ∃ a, x = .ok a ∧ f a = b := by
  cases x with
  | error err => cases h
  | ok a => exact ⟨a, rfl, Except.ok.inj h⟩

end Mapped

/-- What the paths of an entity's artifacts are made of. -/
def Entity.identity (e : Entity) : Text × EntityKind :=
  (e.name, e.kind)

theorem Entity.identity_ofHead (table : MacroTable) (header : Header) (head : ClassHead) :
    (ofHead table header head).map identity =
      (header.properties.mapM Property.ofDeclaration).map fun _ => (head.name, head.kind) := by
  unfold ofHead
  generalize header.properties.mapM Property.ofDeclaration = properties
  cases properties with
  | error err => rfl
  | ok properties => rfl

theorem Entity.identity_ofText (table table' : MacroTable) (fileStem text : Text) :
    (ofText table fileStem text).map (Option.map identity) =
      (ofText table' fileStem text).map (Option.map identity) := by
  unfold ofText
  cases Header.read text with
  | error err => simp only [bind, Except.bind]
  | ok found =>
      cases found with
      | none => simp only [bind, Except.bind]
      | some header =>
          cases hhead : header.head with
          | none => simp only [bind, Except.bind, hhead]
          | some head =>
              have hsame := identity_ofHead table header head
              rw [← identity_ofHead table' header head] at hsame
              simp only [bind, Except.bind, hhead]
              cases hentity : ofHead table' header head with
              | error err =>
                  rw [hentity] at hsame
                  rw [eq_error_of_map hsame]
              | ok entity' =>
                  rw [hentity] at hsame
                  obtain ⟨entity, hentity, hidentity⟩ := exists_of_map hsame
                  rw [hentity]
                  exact congrArg (fun i => Except.ok (some i)) hidentity

namespace ParsedHeader

/-- What a build knows of a header whatever the macros. -/
structure Outline where
  path : Path
  hash : Text
  modified : Moment
  /-- Nothing where the header is not reflected. -/
  identity : Option (Text × EntityKind)

def outline (h : ParsedHeader) : Outline :=
  ⟨h.path, h.hash, h.modified, h.entity.map Entity.identity⟩

variable {tree tree' : FileTree} {table : MacroTable} {path : Path}

theorem read_of_error {err : FileError} (h : tree.readFile path = .error err) :
    read tree table path = .error (.read path err) := by
  unfold read
  rw [h]
  rfl

theorem read_of_ok {contents : Bytes} {modified : Moment}
    (h : tree.readFile path = .ok (contents, modified)) :
    read tree table path =
      ((Entity.ofText table (path.stem?.getD []) (Utf8.decodeLossy contents)).mapError
        (.header path)).bind fun entity =>
          .ok ⟨path, entity, Digest.ofBytes contents, modified⟩ := by
  unfold read
  rw [h]
  rfl

theorem outline_read (h : tree'.readFile path = tree.readFile path) (table table' : MacroTable) :
    (read tree' table' path).map outline = (read tree table path).map outline := by
  cases hread : tree.readFile path with
  | error err => rw [read_of_error hread, read_of_error (h.trans hread)]
  | ok found =>
      obtain ⟨contents, modified⟩ := found
      have hsame := Entity.identity_ofText table' table (path.stem?.getD [])
        (Utf8.decodeLossy contents)
      rw [read_of_ok hread, read_of_ok (h.trans hread)]
      cases hbefore : Entity.ofText table (path.stem?.getD []) (Utf8.decodeLossy contents) with
      | error err =>
          rw [hbefore] at hsame
          rw [eq_error_of_map hsame]
      | ok entity =>
          rw [hbefore] at hsame
          obtain ⟨entity', hafter, hidentity⟩ := exists_of_map hsame
          rw [hafter]
          exact congrArg (fun i => Except.ok (Outline.mk path (Digest.ofBytes contents) modified i))
            hidentity

end ParsedHeader

namespace Batch

variable {tree tree' : FileTree} {table : MacroTable} {path : Path} {rest paths : List Path}

theorem read_nil (tree : FileTree) (table : MacroTable) : read tree table [] = ⟨[], []⟩ :=
  rfl

theorem read_cons_of_ok {h : ParsedHeader} (hread : ParsedHeader.read tree table path = .ok h) :
    read tree table (path :: rest) =
      ⟨h :: (read tree table rest).parsed, (read tree table rest).failures⟩ := by
  simp [read, ofResults, hread]

theorem read_cons_of_error {err : BuildError}
    (hread : ParsedHeader.read tree table path = .error err) :
    read tree table (path :: rest) =
      ⟨(read tree table rest).parsed, err :: (read tree table rest).failures⟩ := by
  simp [read, ofResults, hread]

/-- A batch that is read again with other macros has the same outlines and the same failures. -/
theorem outline_read (h : ∀ path ∈ paths, tree'.readFile path = tree.readFile path)
    (table table' : MacroTable) :
    (read tree' table' paths).parsed.map ParsedHeader.outline =
        (read tree table paths).parsed.map ParsedHeader.outline ∧
      (read tree' table' paths).failures = (read tree table paths).failures := by
  induction paths with
  | nil =>
      rw [read_nil, read_nil]
      exact ⟨rfl, rfl⟩
  | cons path rest ih =>
      obtain ⟨hparsed, hfailures⟩ := ih fun path hmem => h path (List.mem_cons_of_mem _ hmem)
      have hsame := ParsedHeader.outline_read (h path List.mem_cons_self) table table'
      cases hbefore : ParsedHeader.read tree table path with
      | error err =>
          rw [hbefore] at hsame
          have hafter := eq_error_of_map hsame
          rw [read_cons_of_error hbefore, read_cons_of_error hafter]
          exact ⟨hparsed, congrArg (err :: ·) hfailures⟩
      | ok g =>
          rw [hbefore] at hsame
          obtain ⟨g', hafter, houtline⟩ := exists_of_map hsame
          rw [read_cons_of_ok hbefore, read_cons_of_ok hafter]
          refine ⟨?_, hfailures⟩
          show g'.outline :: _ = g.outline :: _
          rw [houtline, hparsed]

end Batch

end Registrar
