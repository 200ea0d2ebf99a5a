import Registrar.CommandLine.Listing
import Registrar.CommandLine.Run

/-!
# The program

Reads a listing of the working directory from standard input and the listed files from disk, runs
the command that the arguments name, and puts the directories that it made and the files that it
changed back on disk.
-/

namespace Registrar.Main

/-- The lines of a stream. -/
partial def readLines (input : IO.FS.Stream) (lines : Array Text) : IO (List Text) := do
  let line ← input.getLine
  if line.isEmpty then return lines.toList
  else readLines input (lines.push (line.toList.filter (· ≠ '\n')))

/-- The tree of the files that a listing names. -/
def readTree (listing : Listing) : IO FileTree := do
  let mut tree := FileTree.ofWorkingDir listing.workingDir
  for (path, modified) in listing.files do
    let contents ← IO.FS.readBinFile (String.ofList path)
    match tree.addFile path contents.toList modified with
    | (next, .ok ()) => tree := next
    | (_, .error e) => throw (IO.userError (String.ofList (path ++ ": " ++ e.message)))
  return tree

/-- Puts a change on disk. -/
def applyChange (loc : Location) : Option Bytes → IO Unit
  | none => IO.FS.removeFile (String.ofList loc)
  | some contents => IO.FS.writeBinFile (String.ofList loc) ⟨contents.toArray⟩

/-- Runs the program in a tree and puts what it changed on disk. -/
def runIn (tree : FileTree) (args : List Text) : IO UInt32 := do
  let report := CommandLine.run tree args
  for loc in tree.newDirs report.tree do
    IO.FS.createDirAll (String.ofList loc)
  for (loc, change) in tree.changes report.tree do
    applyChange loc change
  for line in report.log do
    IO.eprintln (String.ofList line)
  IO.print (String.ofList report.output)
  return UInt32.ofNat report.code

end Registrar.Main

/-- The program. -/
def main (args : List String) : IO UInt32 := do
  let lines ← Registrar.Main.readLines (← IO.getStdin) #[]
  match Registrar.Listing.ofLines? lines with
  | some listing =>
    Registrar.Main.runIn (← Registrar.Main.readTree listing) (args.map String.toList)
  | none =>
    IO.eprintln "expected a listing of the working directory on standard input"
    return 2
