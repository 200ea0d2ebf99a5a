import Registrar.Build.Generate
import Registrar.CommandLine.Help
import Registrar.Entity.Report

/-!
# Running commands

What a command leaves behind: the file tree, what the program prints, what it tells the user, and
its exit code. A failure of the command itself exits with one, a misuse with two.
-/

namespace Registrar.CommandLine

/-- What a run of the program leaves behind. -/
structure Report where
  tree : FileTree
  code : Nat
  output : Text
  /-- The lines for the user, which are not part of the output. -/
  log : List Text

/-- The report of an outcome, where success gives output and more lines for the user. -/
def reportOf {α : Type} (outcome : Outcome α) (success : α → Text × List Text) : Report :=
  match outcome.result with
  | .ok a =>
    let (output, log) := success a
    ⟨outcome.tree, 0, output, outcome.log ++ log⟩
  | .error e => ⟨outcome.tree, 1, [], outcome.log ++ ["Error: " ++ e.message]⟩

/-- What the user is told after a build. -/
def afterBuild (s : Summary) : List Text :=
  if s.failures = 0 then []
  else ["mundi-reflect: " ++ Text.ofNat s.failures ++ " failures, see errors above"]

/-- What the user is told after a cleaning. -/
def afterClean (removed : Bool) : Text :=
  if removed then "mundi-reflect: cache removed" else "mundi-reflect: no cache to remove"

/-- Runs a command. -/
def runCommand (tree : FileTree) : Command → Report
  | .generate settingsFile force =>
    reportOf (Build.generate tree settingsFile force) fun s => ([], afterBuild s)
  | .parse header macroHeader =>
    reportOf (Build.parse tree header macroHeader) fun e =>
      match e with
      | some e => (e.toJson.pretty ++ ['\n'], [])
      | none => ([], [header ++ ": not a reflected type"])
  | .clean settingsFile =>
    reportOf (Build.clean tree settingsFile) fun removed => ([], [afterClean removed])

/-- Runs the program on its arguments. -/
def run (tree : FileTree) (args : List Text) : Report :=
  match read args with
  | .run command => runCommand tree command
  | .explain topic => ⟨tree, 0, topic.explanation, []⟩
  | .misuse => ⟨tree, 2, [], []⟩

end Registrar.CommandLine
