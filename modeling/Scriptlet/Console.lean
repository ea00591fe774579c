/-!
# Printed text

Programs print by writing pieces of text to a sink, which takes each piece as a whole or refuses it
with a reason. What a sink does may depend on all that it was asked to write before.
-/

namespace Scriptlet

/-- A piece that a sink was asked to take, and its reason if it refused. -/
structure Write where
  text : String
  refusal : Option String
  deriving DecidableEq, Repr

/-- Decides on a piece, given the pieces before it, newest first: `none` takes it. -/
abbrev Sink := List Write → String → Option String

/-- All pieces so far, newest first. -/
structure Console where
  history : List Write
  deriving DecidableEq, Repr

namespace Console

def empty : Console := ⟨[]⟩

def taken (console : Console) : List String :=
  console.history.reverse.filterMap fun w => if w.refusal.isNone then some w.text else none

def text (console : Console) : String :=
  String.join console.taken

/-- Writes a piece. The empty piece is not worth a write. -/
def write (console : Console) (sink : Sink) (piece : String) : Option String × Console :=
  if piece = "" then (none, console)
  else
    let refusal := sink console.history piece
    (refusal, ⟨⟨piece, refusal⟩ :: console.history⟩)

def writeAll (console : Console) (sink : Sink) : List String → Option String × Console
  | [] => (none, console)
  | piece :: pieces =>
    match console.write sink piece with
    | (some reason, console) => (some reason, console)
    | (none, console) => console.writeAll sink pieces

end Console

namespace Sink

def unlimited : Sink := fun _ _ => none

def linesTaken (history : List Write) : Nat :=
  (Console.text ⟨history⟩).toList.count '\n'

def upToLines (limit : Nat) : Sink := fun history _ =>
  if linesTaken history < limit then none else some "sink full"

end Sink

end Scriptlet
