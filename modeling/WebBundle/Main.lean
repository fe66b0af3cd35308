import WebBundle.Command.Run
import WebBundle.Storage.Change

/-!
# The program

The paths of the files that make up a project are listed on standard input, one a line. The program
runs its command line on these files alone, so that nothing else on the disk decides what is built.
The changes that the command made to them are then made on the disk.
-/

namespace WebBundle

open Storage

/-- The lines of a stream, without their line breaks. -/
partial def linesOf (stream : IO.FS.Stream) : IO (List String) := do
  let line ← stream.getLine
  if line.isEmpty then return []
  return String.ofList (line.toList.takeWhile (· ≠ '\n')) :: (← linesOf stream)

/-- Adds the file at a path below a directory. A file that cannot be read is left out. -/
def addFromDisk (directory : String) (storage : Storage) (path : String) : IO Storage := do
  match ← (IO.FS.readBinFile path).toBaseIO with
  | .ok bytes => return storage.withFile (Path.join directory path) bytes
  | .error _ => return storage

/-- Makes a change on the disk. No command makes links. -/
def Storage.Change.makeOnDisk : Change → IO Unit
  | .remove place .directory => IO.FS.removeDirAll (pathOf place)
  | .remove place _ => IO.FS.removeFile (pathOf place)
  | .put place .directory => IO.FS.createDirAll (pathOf place)
  | .put place (.file bytes) => IO.FS.writeBinFile (pathOf place) bytes
  | .put _ (.link _) => return

/-- Runs the command line in a directory, and returns the exit code. -/
def runOnDisk (directory : String) (words : List String) : IO UInt32 := do
  let place := (stepsOf directory).filter fun step => step ≠ ""
  let start := (Storage.mk [] place).makeDirectories directory
  let before ← (← linesOf (← IO.getStdin)).foldlM (addFromDisk directory) start.1
  let outcome := Command.run before directory words
  (changes before outcome.storage).forM Change.makeOnDisk
  IO.print outcome.output
  IO.eprint outcome.errors
  match outcome.site with
  | none => return outcome.code.toUInt32
  | some site =>
      IO.eprint ("error: there is no listener for " ++ site.root ++ "\n")
      return 1

end WebBundle

def main (words : List String) : IO UInt32 := do
  WebBundle.runOnDisk ((← IO.getEnv "PWD").getD "/") words
