import Scriptlet.Builtin.Standard
import Scriptlet.Session

/-!
# The shell

Answers lines one at a time, all in one scope. A line is a program, with the newline that ends it. A
blank line does nothing, and `exit` or `quit` on a line of its own ends the shell. Faults are
forgotten after each line, so that notes belong to the line that they are shown with.

What is answered is a report; `Report.andThen` puts one behind another. Input arrives as bytes. It
is cut into lines at the newlines, and a line, like a file, is a text only if its bytes are valid
UTF-8.
-/

namespace Scriptlet

/-! ## Reports -/

/-- All that a command writes, and the status that it ends with. -/
structure Report where
  status : Nat
  output : String
  errors : String
  deriving DecidableEq, Repr

namespace Report

def silent : Report := ⟨0, "", ""⟩

def failure (message : String) : Report :=
  ⟨1, "", "Error: " ++ message ++ "\n"⟩

/-- What one command writes in front of what another does, with the status of the other. -/
def andThen (first next : Report) : Report :=
  ⟨next.status, first.output ++ next.output, first.errors ++ next.errors⟩

end Report

def parseErrorReport (errors : List ParseError) : String :=
  "Parser errors:\n" ++ String.join (errors.map fun e => "\t" ++ e.message ++ "\n")

def faultNotes (lists : Lists) (faults : List Fault) : String :=
  String.join (faults.map fun f => "note: " ++ f.message lists ++ "\n")

/-! ## Lines -/

namespace Text

def newline : UInt8 := 10

/-- Puts a byte in front of the first line. A newline is a line of its own then. -/
def consByte (b : UInt8) : List (List UInt8) → List (List UInt8)
  | [] => [[b]]
  | line :: lines => if b = newline then [b] :: line :: lines else (b :: line) :: lines

/-- The lines of an input, each with the newline that ends it. The last may lack one. -/
def byteLines (bytes : List UInt8) : List (List UInt8) :=
  bytes.foldr consByte []

def ofBytes? (bytes : List UInt8) : Option String :=
  String.fromUTF8? ⟨bytes.toArray⟩

def lines (bytes : List UInt8) : List (Option String) :=
  (byteLines bytes).map ofBytes?

end Text

/-! ## Conversation -/

structure Shell where
  session : Session
  /-- The scope that all lines run in. -/
  global : ScopeId
  /-- Whether faults are shown. -/
  notes : Bool

inductive Turn where
  /-- The shell ends. -/
  | leave
  /-- The shell writes something and goes on. -/
  | reply (report : Report) (next : Shell)

namespace Shell

def greeting : String := "pingul v0.1.0\n"

def start (options : Options) (notes : Bool) : Shell :=
  ⟨.start ⟨options, .standard, .unlimited, Block.binds⟩, 0, notes⟩

def turn (shell : Shell) (fuel : Nat) (line : String) : Option Turn :=
  let word := String.ofList (Text.trim line.toList)
  if word = "exit" ∨ word = "quit" then some .leave
  else if word = "" then some (.reply .silent shell)
  else
    (shell.session.run fuel line shell.global).map fun (result, after) =>
      let lists := after.machine.lists
      let shown := match result with
        | .ok v => v.code lists ++ "\n"
        | .error errors => parseErrorReport errors
      let (faults, session) := after.takeFaults
      let notes := if shell.notes then faultNotes lists faults else ""
      .reply ⟨0, after.printedSince shell.session ++ shown, notes⟩ { shell with session }

/-- Answers lines until the shell or the input ends. A line that is no text ends the shell with a
failure. -/
def answer (fuel : Nat) (shell : Shell) : List (Option String) → Option Report
  | [] => some .silent
  | none :: _ => some (.failure "line editor failed: stream did not contain valid UTF-8")
  | some line :: lines =>
    match shell.turn fuel line with
    | none => none
    | some .leave => some .silent
    | some (.reply report next) => (next.answer fuel lines).map report.andThen

end Shell

end Scriptlet
