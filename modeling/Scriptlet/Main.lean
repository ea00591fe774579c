import Scriptlet.Cli

/-!
# The program

Reads files and standard input, and writes what the command answers. Lines of the shell are answered
as they come.
-/

namespace Scriptlet

/-- Fuel that no run uses up. -/
def unboundedFuel : Nat := 1000000000000000000

def Report.write (report : Report) : IO Unit := do
  let out ← IO.getStdout
  out.putStr report.output
  out.flush
  let err ← IO.getStderr
  err.putStr report.errors
  err.flush

/-- Reads the bytes of a line, with the newline that ends it. -/
partial def readLineBytes (input : IO.FS.Stream) (taken : Array UInt8) : IO (Array UInt8) := do
  let bytes ← input.read 1
  match bytes.data[0]? with
  | none => return taken
  | some b => if b = Text.newline then return taken.push b else readLineBytes input (taken.push b)

/-- Answers the lines of the input. -/
partial def converse (input : IO.FS.Stream) (shell : Shell) : IO UInt32 := do
  let bytes ← readLineBytes input #[]
  if bytes.isEmpty then return 0
  match Text.ofBytes? bytes.toList with
  | none =>
    match shell.answer 0 [none] with
    | some report =>
      report.write
      return report.status.toUInt32
    | none => return 0
  | some line =>
    match shell.turn unboundedFuel line with
    | some (.reply report next) =>
      report.write
      converse input next
    | _ => return 0

def readText (path : String) : IO (Except Cli.FileError String) := do
  try
    let bytes ← IO.FS.readBinFile path
    return Cli.fileText bytes.toList
  catch
    | .noFileOrDirectory .. => return .error .notFound
    | .inappropriateType .. => return .error .isDirectory
    | e => return .error (.other (toString e))

/-- The program, given how it reads its arguments. -/
def command (reader : Cli.Reader) (args : List String) : IO UInt32 := do
  match reader args with
  | .error report =>
    report.write
    return report.status.toUInt32
  | .ok inv =>
    match inv.file with
    | some path =>
      match Cli.runFile inv unboundedFuel path (← readText path) with
      | some report =>
        report.write
        return report.status.toUInt32
      | none => return 0
    | none =>
      Report.write ⟨0, Shell.greeting, ""⟩
      converse (← IO.getStdin) (.start inv.options inv.diagnostics)

end Scriptlet
