import Registrar.Number.Decimal
import Registrar.Text.Search
import Registrar.Toml.Basic

/-!
# Reading TOML

A document is read line by line into statements. Values may span lines only inside brackets and
inside strings with three quotes.
-/

namespace Registrar.Toml

/-! ## Blanks, comments and line ends -/

/-- White space within a line. -/
def isSpace (c : Char) : Bool :=
  c == ' ' || c == '\t'

/-- A text past its white space, within the line. -/
def skipSpace (t : Text) : Text :=
  t.dropWhile isSpace

/-- A character that may stand in a comment or in a string: no control but a tab. -/
def isPrintable (c : Char) : Bool :=
  c == '\t' || (0x20 ≤ c.toNat && c.toNat ≠ 0x7F)

/-- A line end; the rest. -/
def takeNewline? : Text → Option (Unit × Text)
  | '\n' :: r => some ((), r)
  | '\r' :: '\n' :: r => some ((), r)
  | _ => none

/-- A text past a comment, if one stands there. -/
def skipComment : Text → Text
  | '#' :: r => r.dropWhile isPrintable
  | t => t

/-- White space, comments and line ends up to a line end; the rest. -/
def takeBlankLine? (t : Text) : Option (Unit × Text) :=
  takeNewline? (skipComment (skipSpace t))

/-- A text past white space, comments and line ends. A comment ends with its line. -/
def skipLines (t : Text) : Text :=
  skipSpace (t.many takeBlankLine?).2

/-! ## Strings -/

/-- The character of a hexadecimal escape with `count` digits; the rest. -/
def takeCode? (count : Nat) (t : Text) : Option (Text × Text) := do
  let (n, rest) ← t.takeHex? count
  if n.isValidChar then some ([Char.ofNat n], rest) else none

/-- The character of an escape, past the backslash; the rest. -/
def takeEscape? : Text → Option (Text × Text)
  | [] => none
  | c :: r =>
    if c = 'b' then some (['\x08'], r)
    else if c = 't' then some (['\t'], r)
    else if c = 'n' then some (['\n'], r)
    else if c = 'f' then some (['\x0c'], r)
    else if c = 'r' then some (['\r'], r)
    else if c = '"' ∨ c = '\\' then some ([c], r)
    else if c = 'u' then takeCode? 4 r
    else if c = 'U' then takeCode? 8 r
    else none

/-- A piece of a string between double quotes; the rest. -/
def takeBasicPiece? : Text → Option (Text × Text)
  | [] => none
  | c :: r =>
    if c = '\\' then takeEscape? r
    else if c = '"' ∨ !isPrintable c then none
    else some ([c], r)

/-- A piece of a string between single quotes; the rest. -/
def takeLiteralPiece? : Text → Option (Text × Text)
  | [] => none
  | c :: r => if c = '\'' ∨ !isPrintable c then none else some ([c], r)

/-- A piece of a string of several lines: a line end, which counts as one character; a quote, if
fewer than three stand together; or what else `piece` reads. -/
def takeLongPiece? (quote : Char) (piece : Text → Option (Text × Text)) (t : Text) :
    Option (Text × Text) :=
  match takeNewline? t with
  | some ((), rest) => some (['\n'], rest)
  | none =>
    match t with
    | [] => none
    | c :: r =>
      if c = quote then
        if (t.takeWhile (· = quote)).length < 3 then some ([c], r) else none
      else
        piece t

/-- A piece of a string of several lines in double quotes. A backslash at the end of a line swallows
the line end and the white space after it. -/
def takeLongBasicPiece? : Text → Option (Text × Text) :=
  takeLongPiece? '"' fun t =>
    match t with
    | '\\' :: r =>
      match takeNewline? (skipSpace r) with
      | some ((), rest) => some ([], skipSpace (rest.many (takeNewline? ∘ skipSpace)).2)
      | none => takeEscape? r
    | t => takeBasicPiece? t

/-- The pieces of a string up to its closing quote; the rest. -/
def takeShort? (quote : Char) (piece : Text → Option (Text × Text)) (t : Text) :
    Option (Text × Text) := do
  let (pieces, rest) := t.many piece
  return (pieces.flatten, ← rest.takeChar? quote)

/-- The pieces of a string of several lines up to its three closing quotes; the rest. A line end in
front says nothing, and up to two quotes may stand before the closing ones. -/
def takeLong? (quote : Char) (piece : Text → Option (Text × Text)) (t : Text) :
    Option (Text × Text) :=
  let t :=
    match takeNewline? t with
    | some ((), rest) => rest
    | none => t
  let (pieces, rest) := t.many piece
  let closing := rest.takeWhile (· = quote)
  if 3 ≤ closing.length ∧ closing.length ≤ 5 then
    some (pieces.flatten ++ closing.drop 3, rest.drop closing.length)
  else
    none

/-- A string; the rest. -/
def takeString? : Text → Option (Text × Text)
  | '"' :: '"' :: '"' :: r => takeLong? '"' takeLongBasicPiece? r
  | '"' :: r => takeShort? '"' takeBasicPiece? r
  | '\'' :: '\'' :: '\'' :: r => takeLong? '\'' (takeLongPiece? '\'' takeLiteralPiece?) r
  | '\'' :: r => takeShort? '\'' takeLiteralPiece? r
  | _ => none

/-! ## Numbers -/

/-- A row of digits without the underscores that may stand between any two of them. -/
def ungroup? (t : Text) : Option Text :=
  let pieces := t.splitWhere (· == '_')
  if pieces.any (·.isEmpty) then none else some pieces.flatten

/-- A number without its sign, and whether that was a minus. -/
def splitSign : Text → Bool × Text
  | '-' :: r => (true, r)
  | '+' :: r => (false, r)
  | t => (false, t)

/-- A row of decimal digits that may have underscores and leading zeros. -/
def isDigits (t : Text) : Bool :=
  match ungroup? t with
  | some digits => digits.all Char.isDigit
  | none => false

/-- A row of decimal digits that may have underscores and has no needless zero in front. -/
def isWhole (t : Text) : Bool :=
  isDigits t && (t.head? != some '0' || t.length == 1)

/-- The value of a row of digits in a base. -/
def grouped? (base : Nat) (t : Text) : Option Nat := do
  Text.digitsValue? base (← ungroup? t)

/-- An integer, with no regard to its size. -/
def anyInteger? (t : Text) : Option Int :=
  match t with
  | '0' :: 'x' :: digits => (grouped? 16 digits).map Int.ofNat
  | '0' :: 'o' :: digits => (grouped? 8 digits).map Int.ofNat
  | '0' :: 'b' :: digits => (grouped? 2 digits).map Int.ofNat
  | t =>
    let (negative, digits) := splitSign t
    if isWhole digits then (grouped? 10 digits).map fun n => if negative then -n else n
    else none

/-- An integer of 64 bits. -/
def integer? (t : Text) : Option Int := do
  let n ← anyInteger? t
  let limit : Int := Nat.pow 2 63
  if -limit ≤ n ∧ n < limit then some n else none

/-- The exponent of a number, past its letter. -/
def isExponent (t : Text) : Bool :=
  isDigits (splitSign t).2

/-- The exponent of a number, if there is one. -/
def isExponentTail : Text → Bool
  | [] => true
  | c :: r => (c == 'e' || c == 'E') && isExponent r

/-- A number with a fraction or an exponent, or one of the special ones. -/
def isFloat (t : Text) : Bool :=
  let t := (splitSign t).2
  let isMantissa := fun c => c.isDigit || c == '_'
  t = "inf" || t = "nan" ||
    (isWhole (t.takeWhile isMantissa) &&
      match t.dropWhile isMantissa with
      | '.' :: r => isDigits (r.takeWhile isMantissa) && isExponentTail (r.dropWhile isMantissa)
      | [] => false
      | tail => isExponentTail tail)

/-- The least number that a format of 64 bits cannot tell from infinity. -/
def overflow : Nat := Nat.pow 2 1024 - Nat.pow 2 970

/-- A decimal that overflows. It has at least 309 digits before its point. -/
def overflows (d : Decimal) : Bool :=
  let point : Int := (Text.ofNat d.significand).length + d.exponent
  if d.significand = 0 ∨ point < 309 then false
  else if 309 < point then true
  else
    let (num, den) := Single.scaleDown 10 (-d.exponent) d.significand 1
    overflow * den ≤ num

/-- A positive number that overflows, which is refused. -/
def isTooLarge (t : Text) : Bool :=
  let (negative, digits) := splitSign t
  match Decimal.read? (digits.filter (· ≠ '_')) with
  | some d => !negative && overflows d
  | none => false

/-! ## Dates and times -/

/-- A number of exactly `count` digits. -/
def digits? (count : Nat) (t : Text) : Option Nat :=
  if t.length = count then Text.digitsValue? 10 t else none

/-- The number of days of a month. -/
def daysIn (year month : Nat) : Nat :=
  if month = 2 then
    if year % 4 = 0 ∧ (year % 100 ≠ 0 ∨ year % 400 = 0) then 29 else 28
  else if month = 4 ∨ month = 6 ∨ month = 9 ∨ month = 11 then 30
  else 31

/-- A day: year, month and day of the month. -/
def isDate (t : Text) : Bool :=
  match (t.splitWhere (· == '-')) with
  | [year, month, day] =>
    match digits? 4 year, digits? 2 month, digits? 2 day with
    | some year, some month, some day =>
      1 ≤ month && month ≤ 12 && 1 ≤ day && day ≤ daysIn year month
    | _, _, _ => false
  | _ => false

/-- A number of two digits up to a limit. -/
def isUpTo (limit : Nat) (t : Text) : Bool :=
  match digits? 2 t with
  | some n => n ≤ limit
  | none => false

/-- The seconds of a time, which may have a fraction and count a leap second. -/
def isSeconds (t : Text) : Bool :=
  isUpTo 60 (t.takeWhile (· ≠ '.')) &&
    match t.dropWhile (· ≠ '.') with
    | [] => true
    | _ :: fraction => !fraction.isEmpty && fraction.all Char.isDigit

/-- A time of the day. -/
def isTime (t : Text) : Bool :=
  match t.splitWhere (· == ':') with
  | [hours, minutes, seconds] => isUpTo 23 hours && isUpTo 59 minutes && isSeconds seconds
  | _ => false

/-- An offset from universal time. -/
def isOffset : Text → Bool
  | [c] => c == 'Z' || c == 'z'
  | c :: r =>
    (c == '+' || c == '-') &&
      match Text.splitWhere (· == ':') r with
      | [hours, minutes] => isUpTo 23 hours && isUpTo 59 minutes
      | _ => false
  | [] => false

/-- A time of the day that may have an offset. -/
def isTimeWithOffset (t : Text) : Bool :=
  let startsOffset := fun c => c == 'Z' || c == 'z' || c == '+' || c == '-'
  isTime (t.takeWhile (!startsOffset ·)) &&
    match t.dropWhile (!startsOffset ·) with
    | [] => true
    | offset => isOffset offset

/-- A day and a time with a letter between them. -/
def isDateTime (t : Text) : Bool :=
  isDate (t.take 10) &&
    match t.drop 10 with
    | c :: time => (c == 'T' || c == 't') && isTimeWithOffset time
    | [] => false

/-! ## Values -/

/-- A character of an unquoted value. -/
def isTokenChar (c : Char) : Bool :=
  c.isAlphanum || c == '_' || c == '+' || c == '-' || c == '.' || c == ':'

/-- The unquoted value that a token is. -/
def ofToken? (t : Text) : Option Toml :=
  if t = "true" then some (boolean true)
  else if t = "false" then some (boolean false)
  else if isDate t || isTime t || isDateTime t then some moment
  else if isFloat t then if isTooLarge t then none else some float
  else (integer? t).map integer

/-- A value that is neither an array nor a table; the rest. A time may follow a day after a
blank. -/
def takeScalar? (t : Text) : Option (Toml × Text) :=
  match takeString? t with
  | some (s, rest) => some (string s, rest)
  | none =>
    let token := t.takeWhile isTokenChar
    let rest := t.dropWhile isTokenChar
    match rest with
    | ' ' :: r =>
      if isDate token && isTimeWithOffset (r.takeWhile isTokenChar) then
        some (moment, r.dropWhile isTokenChar)
      else
        (ofToken? token).map (·, rest)
    | rest => (ofToken? token).map (·, rest)

/-- A character of a key without quotes. -/
def isKeyChar (c : Char) : Bool :=
  c.isAlphanum || c == '_' || c == '-'

/-- A part of a key, with the white space around it; the rest. -/
def takeKeyPart? (t : Text) : Option (Text × Text) :=
  match skipSpace t with
  | '"' :: r => (takeShort? '"' takeBasicPiece? r).map fun (key, rest) => (key, skipSpace rest)
  | '\'' :: r => (takeShort? '\'' takeLiteralPiece? r).map fun (key, rest) => (key, skipSpace rest)
  | t =>
    match t.takeWhile isKeyChar with
    | [] => none
    | c :: key => some (c :: key, skipSpace (t.dropWhile isKeyChar))

/-- The nesting that values and keys stay below. -/
def nestingLimit : Nat := 80

/-- A dotted key as the path of its table and its last part; the rest. -/
def takeKey? (t : Text) : Option ((List Text × Text) × Text) := do
  let (first, rest) ← takeKeyPart? t
  let (others, rest) := rest.many fun t => do takeKeyPart? (← t.takeChar? '.')
  if nestingLimit ≤ others.length + 1 then none
  else
    match others.getLast? with
    | none => some (([], first), rest)
    | some last => some ((first :: others.dropLast, last), rest)

/-- A key, an equals sign and a value; the rest. -/
def takeAssignment? (value : Text → Option (Toml × Text)) (t : Text) :
    Option (Statement × Text) := do
  let ((path, key), rest) ← takeKey? t
  let (v, rest) ← value (skipSpace (← rest.takeChar? '='))
  return (.assign path key v, rest)

/-- The values of an array, past its opening bracket; the rest. A comma may follow the last one. -/
def takeArray? (value : Text → Option (Toml × Text)) (t : Text) : Option (List Toml × Text) :=
  match (skipLines t).takeChar? ']' with
  | some rest => some ([], rest)
  | none => do
    let (first, rest) ← value (skipLines t)
    let (others, rest) := rest.many fun t => do
      value (skipLines (← (skipLines t).takeChar? ','))
    let rest := skipLines rest
    let rest := skipLines ((rest.takeChar? ',').getD rest)
    return (first :: others, ← rest.takeChar? ']')

/-- The assignments of a table in braces, past the opening one; the rest. -/
def takeInlineTable? (value : Text → Option (Toml × Text)) (t : Text) :
    Option (List Statement × Text) :=
  match (skipSpace t).takeChar? '}' with
  | some rest => some ([], rest)
  | none => do
    let (first, rest) ← takeAssignment? value t
    let (others, rest) := rest.many fun t => do
      takeAssignment? value (← (skipSpace t).takeChar? ',')
    return (first :: others, ← (skipSpace rest).takeChar? '}')

/-- The fields of a table in braces. -/
def inlineFields? (statements : List Statement) : Option Fields :=
  (Document.ofStatements? statements).map (·.fields)

/-- A value with arrays and tables nested at most `depth` deep; the rest. -/
def takeValue? : (depth : Nat) → Text → Option (Toml × Text)
  | 0, t => takeScalar? t
  | depth + 1, '[' :: r => (takeArray? (takeValue? depth) r).map fun (vs, rest) => (array vs, rest)
  | depth + 1, '{' :: r => do
    let (statements, rest) ← takeInlineTable? (takeValue? depth) r
    return (table .inline (← inlineFields? statements), rest)
  | _ + 1, t => takeScalar? t

/-! ## Statements -/

/-- A header or an assignment; the rest. -/
def takeStatement? : Text → Option (Statement × Text)
  | '[' :: '[' :: r => do
    let ((path, key), rest) ← takeKey? r
    return (.addTable path key, ← rest.after? "]]")
  | '[' :: r => do
    let ((path, key), rest) ← takeKey? r
    return (.openTable path key, ← rest.takeChar? ']')
  | t => takeAssignment? (takeValue? (nestingLimit - 1)) t

/-- What a line says, if anything; the rest from the end of the line on. -/
def takeLine? (t : Text) : Option (Option Statement × Text) :=
  match skipSpace t with
  | [] => some (none, [])
  | c :: r =>
    if c = '#' ∨ c = '\n' ∨ c = '\r' then some (none, skipComment (c :: r))
    else (takeStatement? (c :: r)).map fun (s, rest) => (some s, skipComment (skipSpace rest))

/-- The fields of the document that a text is. A byte order mark in front says nothing. -/
def read? (t : Text) : Option Fields := do
  let t : Text :=
    match t.takeChar? '\uFEFF' with
    | some rest => rest
    | none => t
  let (lines, rest) := t.many fun t => do
    let (line, rest) ← takeLine? t
    let ((), rest) ← takeNewline? rest
    return (line, rest)
  let (last, rest) ← takeLine? rest
  if rest ≠ [] then none
  else
    return (← Document.ofStatements? ((lines ++ [last]).filterMap id)).fields

end Registrar.Toml
