import PackedInts.Command.Job

/-!
# The program

The command line on the files of the machine. Everything that is decided stands in the library; here
files are read and written, the two texts are printed, and the exit code is returned.

* `diskAccess` -- the files of the machine as what jobs read and write;
* `main` -- one run.
-/

namespace PackedInts

/-- The text of a path, for the operations of the machine. -/
def pathText (path : Bytes) : String :=
  (String.fromUTF8? ⟨path.toArray⟩).getD ""

/-- The fault behind a failure to make directories. -/
def faultOfError : IO.Error → PathFault
  | .noFileOrDirectory .. => .missing
  | .invalidArgument .. => .nameTooLong
  | _ => .notDirectory

/-- Makes the directories on the way to what a path names. -/
def makeParentOnDisk (path : Bytes) : IO (Except CommandError Unit) := do
  let parent := Path.parent path
  if parent.isEmpty then return .ok ()
  try
    IO.FS.createDirAll (System.mkFilePath [pathText parent])
    return .ok ()
  catch e => return .error (.file (.cannotMakeDirectories parent (faultOfError e)))

/-- The files of the machine as what jobs read and write. -/
def diskAccess : FileAccess IO where
  readInput path := do
    let file := System.mkFilePath [pathText path]
    if !(← file.pathExists) then return .error (.inputMissing path)
    else if ← file.isDir then return .error (.inputIsDirectory path)
    else
      try return .ok (← IO.FS.readBinFile file).toList
      catch _ => return .error (.file (.cannotOpenForReading path))
  writeOutput path content := do
    match ← makeParentOnDisk path with
    | .error e => return .error e
    | .ok () =>
      try
        IO.FS.writeBinFile (System.mkFilePath [pathText path]) ⟨content.toArray⟩
        return .ok ()
      catch _ => return .error (.file (.cannotOpenForWriting path))

end PackedInts

/-- One run: the arguments are the command and its options. -/
def main (arguments : List String) : IO UInt32 := do
  let report ← PackedInts.performArguments PackedInts.Base64.standardCodec
    PackedInts.diskAccess (arguments.map fun argument => argument.toUTF8.toList)
  (← IO.getStdout).write ⟨report.stdout.toArray⟩
  (← IO.getStderr).write ⟨report.stderr.toArray⟩
  return report.exit
