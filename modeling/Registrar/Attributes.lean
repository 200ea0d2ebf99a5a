import Registrar.Dict
import Registrar.Text.Place
import Registrar.Text.Search

/-!
# Attributes

The arguments of a marker, such as `EditAnywhere, Category="Light", Tooltip="Light " "colour"`,
give a dictionary of attributes. A *pair* is a word, an equals sign and a value: adjacent quoted
segments, joined, or a bare run of word characters, dots and signs. A *flag* is a capitalised word
outside quotes that neither follows nor precedes an equals sign; its value is `true`. A pair wins
over a flag of the same name, a later pair over an earlier one.
-/

namespace Registrar

/-- The attributes that a marker's arguments declare. -/
abbrev Attributes := Dict Text

namespace Attributes

/-- The value of a flag. -/
def flagValue : Text := "true"

/-- A quoted segment at the front: what stands between its quotes, and the rest. -/
def takeSegment? : Text → Option (Text × Text)
  | [] => none
  | c :: r =>
    if c = '"' then
      match r.dropWhile (· ≠ '"') with
      | [] => none
      | _ :: rest => some (r.takeWhile (· ≠ '"'), rest)
    else
      none

theorem length_lt_of_takeSegment? {t s rest : Text} (h : takeSegment? t = some (s, rest)) :
    rest.length < t.length := by
  cases t with
  | nil => simp [takeSegment?] at h
  | cons c r =>
      rw [takeSegment?] at h
      split at h
      · split at h
        · simp at h
        · next hd =>
          simp only [Option.some.injEq, Prod.mk.injEq] at h
          have hle := Text.length_dropWhile_le (· ≠ '"') r
          rw [hd, List.length_cons] at hle
          rw [← h.2, List.length_cons]
          omega
      · simp at h

/-- The quoted segments at the front, joined, with the white space after each skipped; the rest. -/
def takeSegments (t : Text) : Text × Text :=
  match _h : takeSegment? t with
  | none => ([], t)
  | some (segment, rest) =>
    let (segments, last) := takeSegments rest.trimStart
    (segment ++ segments, last)
termination_by t.length
decreasing_by
  exact Nat.lt_of_le_of_lt (Text.length_dropWhile_le _ _) (length_lt_of_takeSegment? _h)

/-- The characters of a value that is written without quotes. -/
def isBare (c : Char) : Bool :=
  Text.isWord c || c == '.' || c == '+' || c == '-'

/-- A value at the front: quoted segments, or a non-empty bare run; the rest. -/
def takeValue? (t : Text) : Option (Text × Text) :=
  if (takeSegment? t).isSome then
    some (takeSegments t)
  else if t.takeWhile isBare ≠ [] then
    some (t.takeWhile isBare, t.dropWhile isBare)
  else
    none

/-- A pair at the front, and the rest. -/
def takePair? (t : Text) : Option ((Text × Text) × Text) := do
  let (key, rest) ← t.takeWord?
  let rest ← rest.trimStart.takeChar? '='
  let (value, rest) ← takeValue? rest.trimStart
  return ((key, value), rest)

/-- The pairs of an argument list, in the order they are written. -/
def pairs (args : Text) : List (Text × Text) :=
  args.findAll takePair?

/-- The text with a blank in place of every character between quotes. The quotes stay, and one that
is never closed runs to the end. -/
def blankQuoted (inside : Bool) : Text → Text
  | [] => []
  | c :: r =>
    if c = '"' then c :: blankQuoted (!inside) r
    else (if inside then ' ' else c) :: blankQuoted inside r

/-- The capitalised word that starts at a place, unless an equals sign stands next to it, ASCII
white space apart. -/
def flagAt? (p : Place) : Option Text :=
  let capital := p.after.head?.any fun c => 'A' ≤ c && c ≤ 'Z'
  let follows := (p.before.dropWhile Text.isAsciiBlank).head? == some '='
  let precedes := ((p.after.dropWhile Text.isWord).dropWhile Text.isAsciiBlank).head? == some '='
  if p.atWordStart && capital && !follows && !precedes then
    some (p.after.takeWhile Text.isWord)
  else
    none

/-- The flags of an argument list, in the order they are written. -/
def flags (args : Text) : List Text :=
  (Text.places (blankQuoted false args)).filterMap flagAt?

/-- The attributes of an argument list. -/
def parse (args : Text) : Attributes :=
  (Dict.ofList ((flags args).map fun flag => (flag, flagValue))).insertAll (pairs args)

/-- The attribute is set as a flag, or its value is `true` in any case. -/
def hasFlag (attributes : Attributes) (key : Text) : Bool :=
  (attributes.get? key).any fun value => value.sameUpToCase flagValue

end Attributes

end Registrar
