import Registrar.FileTree.Change

/-!
# Listings of a directory

The program is told which files there are by a listing: the working directory on the first line, and
a line for every file with its time of change, in seconds with a fraction, a blank, and its absolute
path.
-/

namespace Registrar

/-- The files of a working directory, with their times of change. -/
structure Listing where
  workingDir : Path
  files : List (Path × Moment)
deriving DecidableEq, Repr

namespace Listing

/-- The nanoseconds of a fraction of a second, of which nine digits count. -/
def nanos? (fraction : Text) : Option Nat :=
  Text.digitsValue? 10 ((fraction ++ List.replicate 9 '0').take 9)

/-- A moment in seconds with a fraction. -/
def moment? (t : Text) : Option Moment := do
  match t.cut? "." with
  | some (secs, fraction) => Moment.ofParts? (← Text.digitsValue? 10 secs) (← nanos? fraction)
  | none => Moment.ofParts? (← Text.digitsValue? 10 t) 0

/-- The file that a line names. -/
def file? (line : Text) : Option (Path × Moment) := do
  let (modified, path) ← line.cut? " "
  return (path, ← moment? modified)

/-- The listing of some lines, of which empty ones say nothing. -/
def ofLines? (lines : List Text) : Option Listing := do
  match lines.filter (· ≠ []) with
  | [] => none
  | dir :: files => return ⟨dir, ← files.mapM file?⟩

end Listing

end Registrar
