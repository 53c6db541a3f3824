import AllocScript.Command.Execute

/-!
# The program

Reads the command line, runs the command on the disk of the machine and shows the result. A refused
command line ends the program with status 2, a request for help with status 0.
-/

open AllocScript

/-- The error of a file operation in the words of the library. -/
def fileError : IO.Error → FileError
  | .noFileOrDirectory .. => .notFound
  | .inappropriateType _ 20 _ => .notDirectory
  | .inappropriateType _ 21 _ => .isDirectory
  | e => .other (toString e)

/-- The bytes of a file on the machine. -/
def readMachineFile (path : String) : IO (Except FileError ByteArray) := do
  try
    return .ok (← IO.FS.readBinFile path)
  catch e => return .error (fileError e)

/-- The disk of the machine. -/
def machineDisk : Disk IO where
  size path := return (← readMachineFile path).map ByteArray.size
  read := readMachineFile

def usage : List String :=
  ["Usage: allocscript [--log-level LEVEL] COMMAND",
    "",
    "Commands:",
    "  validate FILE                           print a strategy in canonical form",
    "  eval --snapshot FILE [--trace] FILE...  evaluate strategies against a snapshot",
    "  run --config FILE [--trace]             evaluate the strategies of a configuration"]

def main (arguments : List String) : IO UInt32 := do
  match Command.ofArguments arguments with
  | .error .help =>
    IO.print (Shown.textOf usage)
    return 0
  | .error _ =>
    IO.eprint (Shown.textOf usage)
    return 2
  | .ok command =>
    let shown ← command.execute machineDisk
    IO.print (Shown.textOf shown.output)
    IO.eprint (Shown.textOf shown.messages)
    return shown.status.toUInt32
