import Registrar.Text.Comment
import Registrar.Text.Search

/-!
# The table of registration macros

An engine declares in one header which macro registers which kind of property, by definitions of
the form

    #define NAME(arguments) { ... Prop.Type = Space::Kind; ... }

on one line, which may be continued over several by backslashes. The table lists these macros in the
order of their first definition; a later definition of the same name gives the kind.
-/

namespace Registrar

/-- A macro that registers properties of a kind. -/
structure MacroEntry where
  name : Text
  kind : Text
deriving DecidableEq, Repr

/-- The macros of an engine, in the order they are first defined. -/
structure MacroTable where
  entries : List MacroEntry
deriving DecidableEq, Repr

namespace MacroEntry

/-- The words that name a type of a kind, to be found in the text of a pointer type. Kinds for
containers and script files have none, and the kind for shader views has its own. -/
def patternsOf (kind : Text) : List Text :=
  if kind = "Array" ∨ kind = "ScriptFile" then
    []
  else if kind = "SRV" then
    ["ShaderResourceView", "SRV"]
  else
    [kind, 'U' :: kind, 'U' :: kind ++ "Base", kind ++ "Base"]

/-- The words that name a type of the macro's kind. -/
def patterns (e : MacroEntry) : List Text :=
  patternsOf e.kind

/-- One of the macro's words occurs in a type, in any case. -/
def namedIn (e : MacroEntry) (type : Text) : Bool :=
  e.patterns.any fun pattern => pattern.lower.occursIn type.lower

end MacroEntry

namespace MacroTable

/-- The blanks that may stand inside a directive. -/
def isLineBlank (c : Char) : Bool :=
  c == ' ' || c == '\t'

/-- A backslash that continues a line, with the blanks and the line break after it; the rest. -/
def takeContinuation? (t : Text) : Option Text := do
  let rest ← t.takeChar? '\\'
  let rest : Text := rest.dropWhile isLineBlank
  ((rest.takeChar? '\r').getD rest).takeChar? '\n'

/-- The text with a blank in place of every continuation. -/
def joinLines (t : Text) : Text :=
  t.replaceAll takeContinuation? " "

/-- An assignment of a kind to the type of a property, at the front: the kind, and the rest. -/
def takeKind? (t : Text) : Option (Text × Text) := do
  let rest ← t.after? "Prop.Type"
  let rest ← rest.trimStart.takeChar? '='
  let (_, rest) ← rest.trimStart.takeWord?
  let (kind, rest) ← (← rest.after? "::").takeWord?
  let rest ← rest.trimStart.takeChar? ';'
  return (kind, rest)

/-- The first assignment of a kind that starts on the current line. -/
def findKind? : Text → Option (Text × Text)
  | [] => none
  | c :: r =>
    match takeKind? (c :: r) with
    | some found => some found
    | none => if c = '\n' then none else findKind? r

/-- A line break and, right after it, the definition of a macro with its kind; the rest. -/
def takeDefinition? (t : Text) : Option (MacroEntry × Text) := do
  let rest ← t.takeChar? '\n'
  let rest ← Text.takeChar? '#' (rest.dropWhile isLineBlank)
  let rest ← Text.after? (rest.dropWhile isLineBlank) "define"
  let (name, rest) ← (← rest.skipBlanks1?).takeWord?
  let rest ← rest.trimStart.takeChar? '('
  let rest ← Text.takeChar? ')' (rest.dropWhile (· ≠ ')'))
  let rest ← rest.trimStart.takeChar? '{'
  let (kind, rest) ← findKind? rest
  return (⟨name, kind⟩, rest)

/-- The entry in place of an earlier one with its name, or else at the end. -/
def define (entries : List MacroEntry) (e : MacroEntry) : List MacroEntry :=
  if entries.any fun old => old.name = e.name then
    entries.map fun old => if old.name = e.name then e else old
  else
    entries ++ [e]

/-- The definitions of a header, in the order they are written. -/
def definitions (t : Text) : List MacroEntry :=
  Text.findAll takeDefinition? ('\n' :: joinLines t.stripBlockComments)

/-- The macros that a header defines. -/
def parse (t : Text) : MacroTable :=
  ⟨(definitions t).foldl define []⟩

/-- The table without macros. -/
def empty : MacroTable :=
  ⟨[]⟩

/-- The macro with a name. -/
def get? (table : MacroTable) (name : Text) : Option MacroEntry :=
  table.entries.find? fun e => e.name = name

/-- The first macro that a pointer type names. -/
def forType? (table : MacroTable) (type : Text) : Option MacroEntry :=
  if '*' ∈ type then table.entries.find? (·.namedIn type) else none

end MacroTable

end Registrar
