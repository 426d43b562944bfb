import Scriptlet.CommandLine

/-!
# The program

The program reads its whole input and the sources below the working directory, does what its
command line asks for, and then writes its outputs.
-/

namespace Scriptlet

/-- What a stream holds up to its end, behind what has been read already. -/
partial def readAll (input : IO.FS.Stream) (found : String) : IO String := do
  let line ← input.getLine
  if line.isEmpty then return found else readAll input (found ++ line)

/-- A disk with what stands in a directory added to it; of the files only those of wanted
names are read.  A link is kept with the path that it leads to in the end. -/
partial def explore (wanted : String → Bool) (directory : Names) (entry : IO.FS.DirEntry)
    (disk : Disk) : IO Disk := do
  let names := directory ++ [entry.fileName]
  try
    match (← entry.path.symlinkMetadata).type with
    | .symlink =>
      let target ← IO.FS.realPath entry.path
      return { disk with links := (names, target.toString) :: disk.links }
    | .dir =>
      let mut disk := { disk with directories := names :: disk.directories }
      for inner in ← entry.path.readDir do
        disk ← explore wanted names inner disk
      return disk
    | _ =>
      if wanted entry.fileName then
        let content ← IO.FS.readBinFile entry.path
        return { disk with files := (names, content) :: disk.files }
      else
        return disk
  catch _ => return disk

/-- Whether a file may be read by the program: it is a source by its name, or a word of the
command line names it. -/
def isWanted (words : List String) (name : String) : Bool :=
  name.endsWith ".tiny" || words.any fun word => (word.splitOn "/").getLast? == some name

end Scriptlet

open Scriptlet in
/-- Runs the program. -/
def main (words : List String) : IO UInt32 := do
  let input ← readAll (← IO.getStdin) ""
  let here ← IO.currentDir
  let mut disk := { Disk.empty with here := here.toString }
  for entry in ← here.readDir do
    disk ← explore (isWanted words) [] entry disk
  let terminal ← (← IO.getStderr).isTty
  let start := Machine.initial (.ofLines (CommandLine.lines input))
  let (status, m) := start.run (CommandLine.perform disk terminal Run.plenty words)
  IO.print m.streams.out
  IO.eprint m.streams.err
  return (status.getD 3).toUInt32
