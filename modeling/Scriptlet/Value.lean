import Scriptlet.Tree

/-!
# Values

What expressions evaluate to. Lists are shared: a list value is the address of the list, whose
elements are kept apart (`Lists`). A function captures a scope by its number. A value on its way out
of a function is `returned`; it passes through everything in between unchanged.
-/

namespace Scriptlet

abbrev ListId := Nat

abbrev ScopeId := Nat

/-- A function made from a literal: the literal's label, what it says, and the scope that it was
made in. -/
structure Closure where
  label : Nat
  params : List String
  body : Code
  scope : ScopeId
  deriving DecidableEq

inductive Value where
  | int (value : Int64)
  | bool (value : Bool)
  | str (value : String)
  | nil
  | list (address : ListId)
  | func (closure : Closure)
  | builtin (name : String)
  /-- A value that a `return` sends to the end of the innermost function. -/
  | returned (value : Value)
  deriving DecidableEq

/-- The kinds of values that programs can tell apart. -/
inductive Kind where
  | integer | boolean | string | nil | list | function | builtin
  deriving DecidableEq, Repr

def Kind.text : Kind → String
  | integer => "integer"
  | boolean => "boolean"
  | string => "string"
  | nil => "nil"
  | list => "list"
  | function => "function"
  | builtin => "builtin"

/-- The elements of all lists, by address. Lists are never removed. -/
structure Lists where
  cells : Array (List Value)

namespace Lists

def empty : Lists := ⟨#[]⟩

/-- The number of lists, which is also the next address. -/
def size (lists : Lists) : Nat :=
  lists.cells.size

def elements (lists : Lists) (a : ListId) : List Value :=
  lists.cells.getD a []

def alloc (lists : Lists) (elements : List Value) : Lists :=
  ⟨lists.cells.push elements⟩

def update (lists : Lists) (a : ListId) (elements : List Value) : Lists :=
  ⟨lists.cells.setIfInBounds a elements⟩

@[simp] theorem size_alloc (lists : Lists) (vs : List Value) :
    (lists.alloc vs).size = lists.size + 1 := by
  simp [alloc, size]

@[simp] theorem size_update (lists : Lists) (a : ListId) (vs : List Value) :
    (lists.update a vs).size = lists.size := by
  simp [update, size]

@[simp] theorem elements_alloc_self (lists : Lists) (vs : List Value) :
    (lists.alloc vs).elements lists.size = vs := by
  simp [alloc, elements, size]

theorem elements_alloc_of_lt {lists : Lists} {vs : List Value} {a : ListId}
    (h : a < lists.size) : (lists.alloc vs).elements a = lists.elements a := by
  simp only [size] at h
  simp [alloc, elements, Array.getElem?_push, Nat.ne_of_lt h]

theorem elements_update_self {lists : Lists} {vs : List Value} {a : ListId}
    (h : a < lists.size) : (lists.update a vs).elements a = vs := by
  simp only [size] at h
  simp [update, elements, h]

theorem elements_update_of_ne {lists : Lists} {vs : List Value} {a b : ListId} (h : a ≠ b) :
    (lists.update a vs).elements b = lists.elements b := by
  simp [update, elements, h]

end Lists

namespace Value

/-- The value itself, once it has arrived: without one `returned` around it. -/
def arrived : Value → Value
  | returned v => v
  | v => v

def isReturned : Value → Bool
  | returned _ => true
  | _ => false

/-- The kind of a value. One on its way out has the kind that it will arrive with. -/
def kind : Value → Kind
  | int _ => .integer
  | bool _ => .boolean
  | str _ => .string
  | nil => .nil
  | list _ => .list
  | func _ => .function
  | builtin _ => .builtin
  | returned v => v.kind

/-- What a value counts as where a truth value is needed: zero, nil, and what is empty are false. -/
def truthy (lists : Lists) : Value → Bool
  | int n => n != 0
  | bool b => b
  | str s => s != ""
  | nil => false
  | list a => !(lists.elements a).isEmpty
  | func _ => true
  | builtin _ => true
  | returned v => v.truthy lists

end Value

/-! ## Equality

Lists are equal if their elements are, wherever they are kept. Functions are equal if one literal
made both in one scope, and built-in functions if they have one name. A value on its way out equals
only another such value. -/

/-- Whether two values are equal, given which lists are. -/
def Value.equalWith (sameList : ListId → ListId → Bool) : Value → Value → Bool
  | .int a, .int b => a == b
  | .bool a, .bool b => a == b
  | .str a, .str b => a == b
  | .nil, .nil => true
  | .list a, .list b => sameList a b
  | .func f, .func g => f.label == g.label && f.scope == g.scope
  | .builtin a, .builtin b => a == b
  | .returned a, .returned b => a.equalWith sameList b
  | _, _ => false

/-- Whether two lists have equal elements, lists among them down to a depth. Lists that are nested
deeper are told apart by their addresses; unless a list contains itself, there are none if the depth
is the number of lists. -/
def Lists.equal (lists : Lists) : Nat → ListId → ListId → Bool
  | 0, a, b => a == b
  | depth + 1, a, b =>
    (lists.elements a).isEqv (lists.elements b) (Value.equalWith (lists.equal depth))

def Value.equal (lists : Lists) (a b : Value) : Bool :=
  a.equalWith (lists.equal lists.size) b

/-! ## Values from outside

A `Datum` describes a value that an embedder hands in. Each list that it describes is made anew. -/

inductive Datum where
  | int (value : Int64)
  | bool (value : Bool)
  | str (value : String)
  | nil
  | list (elements : List Datum)
  | builtin (name : String)
  | returned (value : Datum)

mutual

/-- Makes the value that a datum describes, inner lists before outer ones. -/
def Datum.build (lists : Lists) : Datum → Value × Lists
  | .int n => (.int n, lists)
  | .bool b => (.bool b, lists)
  | .str s => (.str s, lists)
  | .nil => (.nil, lists)
  | .list ds =>
    let (vs, lists) := buildAll lists ds
    (.list lists.size, lists.alloc vs)
  | .builtin name => (.builtin name, lists)
  | .returned d =>
    let (v, lists) := d.build lists
    (.returned v, lists)

def buildAll (lists : Lists) : List Datum → List Value × Lists
  | [] => ([], lists)
  | d :: ds =>
    let (v, lists) := d.build lists
    let (vs, lists) := buildAll lists ds
    (v :: vs, lists)

end

end Scriptlet
