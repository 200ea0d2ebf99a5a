import Registrar.Text.Search

/-!
# JSON values

A value of the format in which the build cache is kept and entities are shown. Numbers are kept as
they are written, and the fields of an object in their order.
-/

namespace Registrar

/-- A JSON value. -/
inductive Json
  | null
  | bool (b : Bool)
  | number (written : Text)
  | string (t : Text)
  | array (values : List Json)
  | object (fields : List (Text × Json))

namespace Json

/-- The number for a natural number. -/
def ofNat (n : Nat) : Json :=
  number (Text.ofNat n)

/-- The number for an integer. -/
def ofInt (n : Int) : Json :=
  number (Text.ofInt n)

/-- An array of texts. -/
def ofTexts (ts : List Text) : Json :=
  array (ts.map string)

/-! ## Writing -/

/-- The escaped form of a character: quotes, backslashes and controls are escaped. -/
def escapeChar (c : Char) : Text :=
  if c = '"' then ['\\', '"']
  else if c = '\\' then ['\\', '\\']
  else if c = '\x08' then ['\\', 'b']
  else if c = '\x0c' then ['\\', 'f']
  else if c = '\n' then ['\\', 'n']
  else if c = '\r' then ['\\', 'r']
  else if c = '\t' then ['\\', 't']
  else if c.toNat < 0x20 then
    ['\\', 'u', '0', '0', Text.digit (c.toNat / 16), Text.digit (c.toNat % 16)]
  else [c]

/-- A text in quotes. -/
def quote (t : Text) : Text :=
  '"' :: t.flatMap escapeChar ++ ['"']

/-- A line break and the indentation of a level. -/
def newline (level : Nat) : Text :=
  '\n' :: List.replicate (2 * level) ' '

/-- Written items between brackets, one a line and one level deeper; nothing between the brackets
where there are no items. -/
def block (opener closer : Char) (level : Nat) (items : List Text) : Text :=
  if items = [] then [opener, closer]
  else opener :: newline (level + 1) ++ Text.joinWith (',' :: newline (level + 1)) items ++
    newline level ++ [closer]

mutual

/-- The value written over several lines, at a level of indentation. -/
def write (level : Nat) : Json → Text
  | null => "null"
  | bool b => if b then "true" else "false"
  | number written => written
  | string t => quote t
  | array values => block '[' ']' level (writeValues (level + 1) values)
  | object fields => block '{' '}' level (writeFields (level + 1) fields)

/-- The values of an array, written. -/
def writeValues (level : Nat) : List Json → List Text
  | [] => []
  | v :: values => write level v :: writeValues level values

/-- The fields of an object, written. -/
def writeFields (level : Nat) : List (Text × Json) → List Text
  | [] => []
  | (key, v) :: fields => (quote key ++ ": " ++ write level v) :: writeFields level fields

end

/-- The value as a text. -/
def pretty (v : Json) : Text :=
  v.write 0

end Json

end Registrar
