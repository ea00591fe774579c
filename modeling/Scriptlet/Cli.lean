import Scriptlet.Shell

/-!
# The command

With a file, runs it and shows the value of its program; without one, answers the lines of the input
as a shell. Files are given as a function from names to contents, and so is the way in which
arguments are read: a `Reader` says which run they ask for, or answers them itself.
-/

namespace Scriptlet.Cli

structure Invocation where
  file : Option String := none
  strictArity : Bool := false
  noVivify : Bool := false
  diagnostics : Bool := false
  deriving DecidableEq, Repr

def Invocation.options (inv : Invocation) : Options where
  arity := if inv.strictArity then .strict else .lenient
  unsetNames := if inv.noVivify then .nil else .vivify

/-- Reads arguments. Those that ask for help or for the version, or that make no sense, have an
answer instead. -/
abbrev Reader := List String → Except Report Invocation

inductive FileError where
  | notFound
  | isDirectory
  | notText
  | other (reason : String)
  deriving DecidableEq, Repr

def FileError.text : FileError → String
  | notFound => "No such file or directory (os error 2)"
  | isDirectory => "Is a directory (os error 21)"
  | notText => "stream did not contain valid UTF-8"
  | other reason => reason

def fileText (bytes : List UInt8) : Except FileError String :=
  match Text.ofBytes? bytes with
  | some text => .ok text
  | none => .error .notText

/-- Runs a program and shows its value. Notes on faults go to the error output if they are asked
for. -/
def runSource (inv : Invocation) (fuel : Nat) (source : String) : Option Report :=
  let shell := Shell.start inv.options inv.diagnostics
  (shell.session.run fuel source shell.global).map fun (result, after) =>
    let lists := after.machine.lists
    match result with
    | .ok v =>
      ⟨0, after.printedSince shell.session ++ v.display lists ++ "\n",
        if inv.diagnostics then faultNotes lists after.faults else ""⟩
    | .error errors =>
      Report.andThen ⟨1, parseErrorReport errors, ""⟩
        (.failure (toString errors.length ++ " parse error(s)"))

def runFile (inv : Invocation) (fuel : Nat) (path : String) (content : Except FileError String) :
    Option Report :=
  match content with
  | .error e => some (.failure ("could not read \x60" ++ path ++ "\x60: " ++ e.text))
  | .ok source => runSource inv fuel source

def run (reader : Reader) (fuel : Nat) (args : List String)
    (files : String → Except FileError String) (lines : List (Option String)) : Option Report :=
  match reader args with
  | .error report => some report
  | .ok inv =>
    match inv.file with
    | some path => runFile inv fuel path (files path)
    | none =>
      let shell := Shell.start inv.options inv.diagnostics
      (shell.answer fuel lines).map (Report.andThen ⟨0, Shell.greeting, ""⟩)

end Scriptlet.Cli
