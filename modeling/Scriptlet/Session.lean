import Scriptlet.Eval
import Scriptlet.Grammar.Parser
import Scriptlet.Tree.Label

/-!
# Sessions

One evaluator that runs any number of programs. Scopes, lists, printed text and faults stay from one
program to the next. An embedder holds scopes, the first of which has none around it, and may look
into them and bind names itself.
-/

namespace Scriptlet

structure Session where
  context : Context
  machine : Machine
  /-- The scopes that the embedder holds, in the order in which it got them. -/
  scopes : Array ScopeId
  /-- The label of the next function literal. Each time a program is run its literals get new ones,
  so that functions of different runs differ. -/
  nextLabel : Nat

namespace Session

def start (ctx : Context) : Session :=
  let (global, m) := Machine.empty.newRoot
  ⟨ctx, m, #[global], 0⟩

def evaluate (session : Session) (fuel : Nat) (program : Program) (s : ScopeId) :
    Option (Value × Session) :=
  let (code, nextLabel) := program.label session.nextLabel
  (evalProgram session.context fuel code s session.machine).map fun (v, machine) =>
    (v, { session with machine, nextLabel })

/-- Reads a text and evaluates it in a scope. A text with errors is not evaluated. -/
def run (session : Session) (fuel : Nat) (source : String) (s : ScopeId) :
    Option (Except (List ParseError) Value × Session) :=
  let parsed := parse source
  if parsed.errors = [] then
    (session.evaluate fuel parsed.program s).map fun (v, session) => (.ok v, session)
  else some (.error parsed.errors, session)

/-- Reads a text and evaluates those of its statements that could be read. -/
def force (session : Session) (fuel : Nat) (source : String) (s : ScopeId) :
    Option (Value × List ParseError × Session) :=
  let parsed := parse source
  (session.evaluate fuel parsed.program s).map fun (v, session) => (v, parsed.errors, session)

def enclose (session : Session) (outer : ScopeId) : Nat × Session :=
  let (s, machine) := session.machine.enclose outer []
  (session.scopes.size, { session with machine, scopes := session.scopes.push s })

def build (session : Session) (d : Datum) : Value × Session :=
  let (v, lists) := d.build session.machine.lists
  (v, { session with machine := { session.machine with lists } })

/-- What a name means in a scope, built-in functions apart. -/
def get? (session : Session) (s : ScopeId) (name : String) : Option Value :=
  session.machine.scopes.get? s name

def set (session : Session) (s : ScopeId) (name : String) (v : Value) : Session :=
  { session with machine := session.machine.bind s name v }

def setGlobal (session : Session) (s : ScopeId) (name : String) (v : Value) : Session :=
  { session with machine :=
      { session.machine with scopes := session.machine.scopes.setGlobal s name v } }

def depth (session : Session) (s : ScopeId) : Nat :=
  session.machine.scopes.depth s

def faults (session : Session) : List Fault :=
  session.machine.faults.toList

def takeFaults (session : Session) : List Fault × Session :=
  (session.faults, { session with machine := { session.machine with faults := #[] } })

def setOptions (session : Session) (options : Options) : Session :=
  { session with context := { session.context with options } }

def printedSince (session before : Session) : String :=
  String.join (session.machine.console.taken.drop before.machine.console.taken.length)

end Session

end Scriptlet
