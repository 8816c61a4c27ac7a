import FaustLens.Program

/-!
# The executable

Model of the function `main`, the only part that meets the system.

Reads the surroundings of the process, runs the program and writes what it tells.
-/

namespace FaustLens.Executable

/-- The cause of a failed system call. -/
def causeOf : IO.Error → FileError
  | .noFileOrDirectory .. => .notFound
  | .inappropriateType _ code _ => if code = 21 then .isDirectory else .notDirectory
  | e => .other (toString e)

/-- Read bytes, or find the cause why they cannot be read. -/
def attempt (read : IO ByteArray) : IO (Except FileError ByteArray) := do
  try
    return .ok (← read)
  catch e =>
    return .error (causeOf e)

/-- Read a stream to its end, after the bytes in `read`. -/
partial def readStream (stream : IO.FS.Stream) (read : ByteArray) : IO ByteArray := do
  let chunk ← stream.read 65536
  if chunk.isEmpty then return read else readStream stream (read ++ chunk)

/-- Read everything that a run may ask for. -/
def observe (args : Arguments) : IO Program.World := do
  let home ← IO.getEnv "HOME"
  let config := args.config <|> Config.defaultPath? home
  let source := Program.sourcePath? args
  let files ← (config.toList ++ source.toList).mapM fun (path : String) => do
    return (path, ← attempt (IO.FS.readBinFile path))
  let stdin ← IO.getStdin
  let input ←
    if source.isSome then pure (.ok .empty) else attempt (readStream stdin .empty)
  return {
    readFile := fun path => (files.lookup path).getD (.error .notFound)
    home := home
    input := input
    isTerminal := ← (← IO.getStdout).isTty }

/-- Tell an error. -/
def fail (e : Error) : IO UInt32 := do
  IO.eprintln ("Error: " ++ e.message)
  return 1

/-- Write the output of a run. -/
def deliver (out : Output) : IO UInt32 := do
  let stdout ← IO.getStdout
  try
    stdout.write ⟨(Output.deliver none out).1.toArray⟩
    stdout.flush
    return 0
  catch e =>
    fail (.io (causeOf e))

/-- Run the program with the given arguments; the result is the exit code. -/
def start (arguments : List String) : IO UInt32 := do
  match CommandLine.parse arguments with
  | .error e =>
    IO.eprintln ("error: " ++ e.message)
    return 2
  | .ok .showHelp =>
    IO.print CommandLine.helpText
    return 0
  | .ok .showVersion =>
    IO.print CommandLine.versionText
    return 0
  | .ok (.run args) =>
    let run := Program.run args (← observe args)
    for line in run.logLines args.verbosity do
      IO.eprintln line
    match run.result with
    | .ok out => deliver out
    | .error e => fail e

end FaustLens.Executable

/-- The entry point of the executable. -/
def main (arguments : List String) : IO UInt32 := FaustLens.Executable.start arguments
