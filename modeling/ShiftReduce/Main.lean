import ShiftReduce.Cli.Run
import Std.Time.DateTime.Timestamp
/-!
# The program

Runs the command line on the real clock, disk and environment.
-/

namespace ShiftReduce.Cli

/-- The result of an action, or the message of its failure. -/
def attempt (action : IO Unit) : IO (Except String Unit) := do
  try
    action
    return .ok ()
  catch e => return .error (toString e)

/-- Reads a file. -/
def readFile (path : String) : IO Reading := do
  try
    return .contents (← IO.FS.readBinFile path).data.toList
  catch e =>
    match e with
    | .noFileOrDirectory .. => return .missing
    | _ => return .failed (toString e)

/-- Creates a directory in one that is there, unless there is such a directory already. -/
def createDirectory (path : String) : IO Unit := do
  try IO.FS.createDir path
  catch e =>
    if !(← (System.mkFilePath [path]).isDir) then throw e

/-- Creates a directory. If something is missing on the way, its parents, the nearest first, are
created before it. -/
def createWithParents (path : String) : List String → IO Unit
  | [] => createDirectory path
  | parent :: more => do
    try createDirectory path
    catch e =>
      match e with
      | .noFileOrDirectory .. =>
        createWithParents parent more
        createDirectory path
      | _ => throw e

/-- Writes a file under a name of its own and then gives it the wanted name, which fails without
harm if something of that name is there. -/
def publishFile (directory path : String) (contents : Bytes) : IO Unit := do
  if !directory.isEmpty then createWithParents directory (Path.parents directory)
  let draft := path ++ "." ++ Bytes.hex (← IO.getRandomBytes 8).data.toList
  IO.FS.writeBinFile draft ⟨contents.toArray⟩
  try
    IO.FS.hardLink draft path
  catch e =>
    match e with
    | .alreadyExists .. => pure ()
    | _ =>
      IO.FS.removeFile draft
      throw e
  IO.FS.removeFile draft

/-- The real clock and disk. -/
def realStorage : Storage IO where
  now := do return (← Std.Time.Timestamp.now).toMillisecondsSinceUnixEpoch.val.toNat
  read := readFile
  remove path := attempt (IO.FS.removeFile path)
  publish directory path contents := attempt (publishFile directory path contents)

/-- The environment variables that the program looks at. -/
def variableNames : List String :=
  ["HOME", "XDG_CACHE_HOME", "PARSERGENS_CACHE", "PARSERGENS_CACHE_DIR"]

/-- The real environment. -/
def realEnvironment : IO Environment := do
  let values ← variableNames.mapM fun name => return (name, ← IO.getEnv name)
  return ⟨fun name => (values.lookup name).join, none⟩

end ShiftReduce.Cli

open ShiftReduce.Cli in
/-- Runs the program and prints what it reports. -/
def main (args : List String) : IO UInt32 := do
  let report ← run realStorage (← realEnvironment) args
  for line in report.log do IO.eprintln line
  IO.print report.out
  IO.eprint report.err
  return report.code.toUInt32
