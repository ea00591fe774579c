import Scriptlet.Builtin

/-!
# The standard built-in functions

Printing, the length of strings and lists, the two ends of lists, and the kind of a value. Each
checks the number of its arguments first, then that a list is one, then that it has an element.
`append`, `prepend` and `tail` make a new list; only `pop` and `shift` change one.
-/

namespace Scriptlet

namespace Builtin

def oneArgument : List Value → Except Fault Value
  | [v] => .ok v
  | args => .error (.arity 1 args.length)

def twoArguments : List Value → Except Fault (Value × Value)
  | [v, w] => .ok (v, w)
  | args => .error (.arity 2 args.length)

def listArgument (name : String) : Value → Except Fault ListId
  | .list a => .ok a
  | v => .error (.argument name v)

/-- Writes each value on a line of its own, up to a piece that is refused. A value that contains
itself is never written out. -/
def printLines (sink : Sink) (lists : Lists) (console : Console) :
    List Value → Option (Option String × Console)
  | [] => some (none, console)
  | v :: vs =>
    if v.isFinite lists then
      match console.writeAll sink (v.pieces lists ++ ["\n"]) with
      | (some reason, console) => some (some reason, console)
      | (none, console) => printLines sink lists console vs
    else none

def print : Builtin :=
  .onLists "print" fun sink args lists console =>
    (printLines sink lists console args).map fun
      | (some reason, console) => (.error (.output reason), lists, console)
      | (none, console) => (.ok .nil, lists, console)

def len : Builtin :=
  .pure "len" fun args lists => do
    match ← oneArgument args with
    | .str s => return (.int (Int64.ofNat s.length), lists)
    | .list a => return (.int (Int64.ofNat (lists.elements a).length), lists)
    | v => throw (.argument "len" v)

def head : Builtin :=
  .pure "head" fun args lists => do
    let a ← listArgument "head" (← oneArgument args)
    match lists.elements a with
    | [] => throw (.emptyList "head")
    | v :: _ => return (v, lists)

def tail : Builtin :=
  .pure "tail" fun args lists => do
    let a ← listArgument "tail" (← oneArgument args)
    match lists.elements a with
    | [] => throw (.emptyList "tail")
    | _ :: vs => return (.list lists.size, lists.alloc vs)

def append : Builtin :=
  .pure "append" fun args lists => do
    let (list, v) ← twoArguments args
    let a ← listArgument "append" list
    return (.list lists.size, lists.alloc (lists.elements a ++ [v]))

def prepend : Builtin :=
  .pure "prepend" fun args lists => do
    let (list, v) ← twoArguments args
    let a ← listArgument "prepend" list
    return (.list lists.size, lists.alloc (v :: lists.elements a))

def pop : Builtin :=
  .pure "pop" fun args lists => do
    let a ← listArgument "pop" (← oneArgument args)
    match (lists.elements a).getLast? with
    | none => throw (.emptyList "pop")
    | some v => return (v, lists.update a (lists.elements a).dropLast)

def shift : Builtin :=
  .pure "shift" fun args lists => do
    let a ← listArgument "shift" (← oneArgument args)
    match lists.elements a with
    | [] => throw (.emptyList "shift")
    | v :: vs => return (v, lists.update a vs)

def type : Builtin :=
  .pure "type" fun args lists => do
    let v ← oneArgument args
    return (.str v.kind.text, lists)

end Builtin

def Builtins.standard : Builtins :=
  ⟨[.print, .len, .head, .tail, .append, .prepend, .pop, .shift, .type]⟩

theorem Builtins.standard_scopeless : ∀ b ∈ standard.table, b.Scopeless := by
  intro b hb
  simp only [standard, List.mem_cons, List.not_mem_nil, or_false] at hb
  rcases hb with rfl | rfl | rfl | rfl | rfl | rfl | rfl | rfl | rfl
  · exact Builtin.scopeless_onLists _ _
  all_goals exact Builtin.scopeless_pure _ _

end Scriptlet
