import Registrar.Json.Basic

/-!
# Reading JSON

A strict reading of the format: no control characters in strings, no leading zeros in numbers,
nothing after the value.

A character past the first plane is written as a pair of escapes. A string with a lone half of such
a pair keeps to the format and yet is no text, so it is read as `null`, as is an object with such a
key: where nobody asks for the value it does no harm, and where a text is wanted it is none.
-/

namespace Registrar.Json

/-- White space between tokens. -/
def isSpace (c : Char) : Bool :=
  c == ' ' || c == '\t' || c == '\n' || c == '\r'

/-- A text past its white space. -/
def skipSpace (t : Text) : Text :=
  t.dropWhile isSpace

/-- The second half of a pair of numeric escapes; the rest. -/
def takeLowHalf? (t : Text) : Option (Nat × Text) := do
  let (low, rest) ← (← t.after? "\\u").takeHex? 4
  if 0xDC00 ≤ low ∧ low < 0xE000 then some (low, rest) else none

/-- The character that a numeric escape stands for, past its first letter; the rest. A character
past the first plane is written as two escapes, of which the second completes the first, and a lone
half stands for none. -/
def takeUnicode? (t : Text) : Option (Option Char × Text) := do
  let (high, rest) ← t.takeHex? 4
  if 0xD800 ≤ high ∧ high < 0xDC00 then
    match takeLowHalf? rest with
    | some (low, rest) =>
      return (some (Char.ofNat (0x10000 + (high - 0xD800) * 0x400 + (low - 0xDC00))), rest)
    | none => return (none, rest)
  else if 0xDC00 ≤ high ∧ high < 0xE000 then
    return (none, rest)
  else
    return (some (Char.ofNat high), rest)

/-- A character of a string, if what is written stands for one; the rest. -/
def takeStringChar? : Text → Option (Option Char × Text)
  | '\\' :: c :: r =>
    if c = 'u' then takeUnicode? r
    else if c = '"' ∨ c = '\\' ∨ c = '/' then some (some c, r)
    else if c = 'b' then some (some '\x08', r)
    else if c = 'f' then some (some '\x0c', r)
    else if c = 'n' then some (some '\n', r)
    else if c = 'r' then some (some '\r', r)
    else if c = 't' then some (some '\t', r)
    else none
  | c :: r => if c = '"' ∨ c = '\\' ∨ c.toNat < 0x20 then none else some (some c, r)
  | [] => none

/-- The text of a string, if it is one; the rest. -/
def takeString? (t : Text) : Option (Option Text × Text) := do
  let rest ← t.takeChar? '"'
  let (chars, rest) := rest.many takeStringChar?
  return (chars.mapM id, ← rest.takeChar? '"')

/-- A non-empty row of digits; the rest. -/
def takeDigits? (t : Text) : Option (Text × Text) :=
  match t.takeWhile Char.isDigit with
  | [] => none
  | c :: digits => some (c :: digits, t.dropWhile Char.isDigit)

/-- The whole part of a number: a zero, or digits that do not start with one; the rest. -/
def takeWhole? (t : Text) : Option (Text × Text) := do
  let (digits, rest) ← takeDigits? t
  if digits.head? = some '0' ∧ digits.length ≠ 1 then none else some (digits, rest)

/-- The fraction of a number, if there is a point; the rest. -/
def takeFraction? (t : Text) : Option (Text × Text) :=
  match t.takeChar? '.' with
  | none => some ([], t)
  | some rest => (takeDigits? rest).map fun (digits, rest) => ('.' :: digits, rest)

/-- The exponent of a number, if there is one; the rest. -/
def takeExponent? : Text → Option (Text × Text)
  | [] => some ([], [])
  | c :: r =>
    if c = 'e' ∨ c = 'E' then
      match r with
      | '+' :: r => (takeDigits? r).map fun (digits, rest) => (c :: '+' :: digits, rest)
      | '-' :: r => (takeDigits? r).map fun (digits, rest) => (c :: '-' :: digits, rest)
      | r => (takeDigits? r).map fun (digits, rest) => (c :: digits, rest)
    else
      some ([], c :: r)

/-- A number; the rest. -/
def takeNumber? (t : Text) : Option (Text × Text) := do
  let (sign, rest) : Text × Text :=
    match t.takeChar? '-' with
    | some rest => (['-'], rest)
    | none => ([], t)
  let (whole, rest) ← takeWhole? rest
  let (fraction, rest) ← takeFraction? rest
  let (exponent, rest) ← takeExponent? rest
  return (sign ++ whole ++ fraction ++ exponent, rest)

/-- Items between brackets with commas between them, past the opening bracket; the rest. -/
def takeItems? {α : Type} (closer : Char) (item : Text → Option (α × Text)) (t : Text) :
    Option (List α × Text) :=
  match (skipSpace t).takeChar? closer with
  | some rest => some ([], rest)
  | none => do
    let (first, rest) ← item t
    let (others, rest) := rest.many fun t => do item (← (skipSpace t).takeChar? ',')
    return (first :: others, ← (skipSpace rest).takeChar? closer)

/-- A key, a colon and a value, if the key is a text; the rest. -/
def takeField? (value : Text → Option (Json × Text)) (t : Text) :
    Option (Option (Text × Json) × Text) := do
  let (key, rest) ← takeString? (skipSpace t)
  let (v, rest) ← value (← (skipSpace rest).takeChar? ':')
  return (key.map (·, v), rest)

/-- The string value of what may be a text. -/
def ofString : Option Text → Json
  | some t => string t
  | none => null

/-- The object of what may be fields. -/
def ofFields (fields : List (Option (Text × Json))) : Json :=
  match fields.mapM id with
  | some fields => object fields
  | none => null

/-- A value that is nested less than `depth` deep; the rest. -/
def takeValue? : (depth : Nat) → Text → Option (Json × Text)
  | 0, _ => none
  | depth + 1, t =>
    match skipSpace t with
    | '"' :: r => (takeString? ('"' :: r)).map fun (s, rest) => (ofString s, rest)
    | '[' :: r => (takeItems? ']' (takeValue? depth) r).map fun (vs, rest) => (array vs, rest)
    | '{' :: r =>
      (takeItems? '}' (takeField? (takeValue? depth)) r).map fun (fs, rest) => (ofFields fs, rest)
    | t =>
      match t.takeKeyword? "null", t.takeKeyword? "true", t.takeKeyword? "false" with
      | some rest, _, _ => some (null, rest)
      | _, some rest, _ => some (bool true, rest)
      | _, _, some rest => some (bool false, rest)
      | none, none, none => (takeNumber? t).map fun (written, rest) => (number written, rest)

/-- The value that a text is. -/
def read? (t : Text) : Option Json := do
  let (v, rest) ← takeValue? (t.length + 1) t
  if skipSpace rest = [] then some v else none

end Registrar.Json
