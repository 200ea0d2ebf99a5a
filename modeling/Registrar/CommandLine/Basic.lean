import Registrar.Path

/-!
# The command line

The arguments of the program name a command, its options and its operands. An option is written with
two dashes; one that takes a value has it after an equals sign or as the next argument. Two dashes
alone end the options. An option is given at most once.
-/

namespace Registrar

/-- What the program is asked to do. -/
inductive Command
  /-- Build the project of a settings file. -/
  | generate (settingsFile : Path) (force : Bool)
  /-- Show the entity of a header. -/
  | parse (header : Path) (macroHeader : Option Path)
  /-- Remove the cache of a project. -/
  | clean (settingsFile : Path)
deriving DecidableEq, Repr

/-- What the program can explain. -/
inductive Topic
  | program
  | generate
  | parse
  | clean
  | help
deriving DecidableEq, Repr

/-- What the arguments come to. -/
inductive Request
  | run (command : Command)
  | explain (topic : Topic)
  | misuse
deriving DecidableEq, Repr

namespace CommandLine

/-- What a command takes: options, with whether they take a value, and a number of operands. -/
structure Shape where
  options : List (Text × Bool)
  operands : Nat
deriving DecidableEq, Repr

/-- The arguments of a command, read. -/
structure Arguments where
  options : List (Text × Text) := []
  operands : List Text := []
deriving DecidableEq, Repr

/-- Why the arguments of a command are not read to the end. -/
inductive Stop
  | help
  | misuse
deriving DecidableEq, Repr

namespace Arguments

/-- The value of an option. -/
def option? (a : Arguments) (name : Text) : Option Text :=
  (a.options.find? fun o => o.1 = name).map Prod.snd

/-- With one more option, which must be new. -/
def addOption (a : Arguments) (name value : Text) : Except Stop Arguments :=
  if (a.option? name).isSome then .error .misuse
  else .ok { a with options := a.options ++ [(name, value)] }

/-- With one more operand, which is not empty and for which there must be room. -/
def addOperand (shape : Shape) (a : Arguments) (operand : Text) : Except Stop Arguments :=
  if operand = [] ∨ shape.operands ≤ a.operands.length then .error .misuse
  else .ok { a with operands := a.operands ++ [operand] }

end Arguments

/-- An argument that cannot be the value of the option before it. -/
def isDashed (arg : Text) : Bool :=
  match arg with
  | '-' :: _ :: _ => true
  | _ => false

/-- An option as it is written: its name, and its value after an equals sign. -/
def splitOption (arg : Text) : Text × Option Text :=
  match arg.cut? "=" with
  | some (name, value) => (name, some value)
  | none => (arg, none)

/-- An option without a value of its own. -/
def readFlag (shape : Shape) (a : Arguments) (name : Text) : Except Stop Arguments :=
  match shape.options.lookup name with
  | some false => a.addOption name []
  | some true => .error .misuse
  | none => if name = ("help" : Text) then .error .help else .error .misuse

/-- An option with a value, which is not empty. -/
def readValue (shape : Shape) (a : Arguments) (name value : Text) : Except Stop Arguments :=
  if shape.options.lookup name = some true ∧ value ≠ [] then a.addOption name value
  else .error .misuse

/-- The arguments after a command. -/
def readArguments (shape : Shape) : (a : Arguments) → List Text → Except Stop Arguments
  | a, [] => .ok a
  | a, ('-' :: '-' :: []) :: rest => rest.foldlM (Arguments.addOperand shape) a
  | a, ('-' :: '-' :: option) :: rest =>
    match splitOption option, rest with
    | (name, some value), rest => do readArguments shape (← readValue shape a name value) rest
    | (name, none), [] => readFlag shape a name
    | (name, none), next :: others => do
      if shape.options.lookup name = some true then
        if isDashed next then .error .misuse
        else readArguments shape (← readValue shape a name next) others
      else
        readArguments shape (← readFlag shape a name) (next :: others)
  | _, ('-' :: c :: _) :: _ => .error (if c = 'h' then .help else .misuse)
  | a, operand :: rest => do readArguments shape (← a.addOperand shape operand) rest

/-- The settings file that is used when none is named. -/
def defaultSettingsFile : Path := "mundi-reflect.toml"

/-- What the arguments of a command come to. -/
def request (topic : Topic) (shape : Shape) (args : List Text)
    (command : Arguments → Option Command) : Request :=
  match readArguments shape {} args with
  | .error .help => .explain topic
  | .error .misuse => .misuse
  | .ok a =>
    match command a with
    | some c => .run c
    | none => .misuse

/-- The topic that a command's name stands for. -/
def topic? (name : Text) : Option Topic :=
  if name = ("generate" : Text) then some .generate
  else if name = ("parse" : Text) then some .parse
  else if name = ("clean" : Text) then some .clean
  else if name = ("help" : Text) then some .help
  else none

/-- The settings file of a command. -/
def settingsFile (a : Arguments) : Path :=
  (a.option? "config").getD defaultSettingsFile

/-- What a request for help asks to be explained. -/
def readHelp : (args : List Text) → Request
  | [] => .explain .program
  | [name] => ((topic? name).map Request.explain).getD .misuse
  | _ => .misuse

/-- What is asked of a command by the arguments after it. -/
def readCommand (topic : Topic) (args : List Text) : Request :=
  match topic with
  | .program => .misuse
  | .help => readHelp args
  | .generate =>
    request topic ⟨[("config", true), ("force", false)], 0⟩ args fun a =>
      some (.generate (settingsFile a) (a.option? "force").isSome)
  | .parse =>
    request topic ⟨[("macro-header", true)], 1⟩ args fun a =>
      a.operands.head?.map fun header => .parse header (a.option? "macro-header")
  | .clean =>
    request topic ⟨[("config", true)], 0⟩ args fun a => some (.clean (settingsFile a))

/-- What the program is asked to do. -/
def read : (args : List Text) → Request
  | [] => .misuse
  | first :: args =>
    if first = ("--help" : Text) ∨ "-h".toList.isPrefixOf first then .explain .program
    else
      match topic? first with
      | some topic => readCommand topic args
      | none => .misuse

end CommandLine

end Registrar
