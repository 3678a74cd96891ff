import NameBinding.Program
import NameBinding.Terminal.Duration

/-!
# The command line program

Reads the working directory, carries out the command line on it, prints what was said
and writes the files that changed.
-/

namespace NameBinding

/-- The files below the directory at a path, put into `files` below a place. What cannot
be read is left out. -/
partial def loadTree (path : String) (place : List String) (files : Files) : IO Files := do
  let mut files := files.store place .directory
  for entry in ← entriesAt path do
    let name := entry.fileName
    let here := path ++ "/" ++ name
    match ← (entry.path.metadata.toBaseIO) with
    | .error _ => pure ()
    | .ok data =>
        if data.type == .dir then files ← loadTree here (place ++ [name]) files
        else if let .ok content ← (IO.FS.readBinFile here).toBaseIO then
          files := files.store (place ++ [name]) (.file content)
  return files
where
  /-- What is in a directory; nothing if it cannot be read. -/
  entriesAt (path : String) : IO (Array IO.FS.DirEntry) := do
    match ← (((← IO.currentDir) / path).readDir).toBaseIO with
    | .ok entries => return entries
    | .error _ => return #[]

/-- The number of processors, as far as it can be told. -/
def countProcessors : IO Nat := do
  match ← (IO.FS.readFile "/proc/cpuinfo").toBaseIO with
  | .ok text => return ((text.splitOn "\n").filter ("processor".isPrefixOf ·)).length
  | .error _ => return 1

/-- Write the files of a run that were not there before with the same content. -/
def storeChanges (before after : Files) : IO Unit := do
  for (place, entry) in after.entries do
    if let .file content := entry then
      if (before.content? place).map ByteArray.toList != some content.toList then
        IO.FS.writeBinFile ("/".intercalate place) content

/-- One run. -/
def runProgram (arguments : List String) : IO UInt32 := do
  let out ← IO.getStdout
  let err ← IO.getStderr
  let theme := if ← out.isTty then Theme.colored else Theme.plain
  let files ← loadTree "." [] .empty
  let processors ← countProcessors
  let started ← IO.monoMsNow
  let outcome := Program.run theme processors files arguments
  storeChanges files outcome.files
  let stopped ← IO.monoMsNow
  out.putStr (Output.printed (Duration.text (stopped - started)) outcome.said)
  out.flush
  if outcome.code == Program.misuseCode then
    err.putStrLn "error: the command line cannot be understood"
  err.putStr (Output.troubles outcome.verbose outcome.said)
  return outcome.code.toUInt32

end NameBinding

/-- The program. -/
def main (arguments : List String) : IO UInt32 := NameBinding.runProgram arguments
