import Scriptlet.Value

/-!
# Scopes

A scope binds names to values and has at most one scope around it. A name means what the innermost
scope that binds it says. Scopes are shared by all functions made in them, so they are kept in one
forest and named by number. All lookups follow the chain from a scope outwards (`Scopes.chain`).
-/

namespace Scriptlet

/-- Names with their values, each name at most once. -/
abbrev Bindings := List (String × Value)

def Bindings.bind (name : String) (value : Value) : Bindings → Bindings
  | [] => [(name, value)]
  | (n, v) :: rest =>
    if n = name then (name, value) :: rest else (n, v) :: Bindings.bind name value rest

/-- Binds parameters to arguments, one after the other. A parameter without an argument is nil. -/
def Bindings.bindParams (bindings : Bindings) : List String → List Value → Bindings
  | [], _ => bindings
  | name :: names, values =>
    Bindings.bindParams (bindings.bind name (values.headD .nil)) names values.tail

theorem Bindings.lookup_cons (name other : String) (value : Value) (bindings : Bindings) :
    List.lookup other ((name, value) :: bindings) =
      if other = name then some value else bindings.lookup other := by
  rw [List.lookup_cons]
  cases h : other == name <;> simp_all

/-- What a name is bound to once a name has been bound. -/
theorem Bindings.lookup_bind (bindings : Bindings) (name other : String) (value : Value) :
    (bindings.bind name value).lookup other =
      if other = name then some value else bindings.lookup other := by
  induction bindings with
  | nil => exact Bindings.lookup_cons name other value []
  | cons b rest ih =>
    obtain ⟨n, v⟩ := b
    simp only [Bindings.bind]
    split
    · subst n
      simp only [Bindings.lookup_cons]
      split <;> rfl
    · simp only [Bindings.lookup_cons, ih]
      split <;> split <;> simp_all

structure Scope where
  outer : Option ScopeId
  bindings : Bindings

/-- All scopes, by number. Scopes are never removed. -/
structure Scopes where
  nodes : Array Scope

namespace Scopes

def empty : Scopes := ⟨#[]⟩

/-- The number of scopes, which is also the next scope's number. -/
def size (scopes : Scopes) : Nat :=
  scopes.nodes.size

def add (scopes : Scopes) (scope : Scope) : Scopes :=
  ⟨scopes.nodes.push scope⟩

/-- The scopes from one outwards, itself first, as far as `limit` of them. -/
def chainUpTo (scopes : Scopes) : Nat → ScopeId → List ScopeId
  | 0, _ => []
  | limit + 1, s =>
    match scopes.nodes[s]? with
    | none => []
    | some scope =>
      match scope.outer with
      | none => [s]
      | some outer => s :: scopes.chainUpTo limit outer

/-- The scopes from one outwards, itself first. No chain is longer than there are scopes. -/
def chain (scopes : Scopes) (s : ScopeId) : List ScopeId :=
  scopes.chainUpTo scopes.size s

def own? (scopes : Scopes) (s : ScopeId) (name : String) : Option Value :=
  scopes.nodes[s]?.bind fun scope => scope.bindings.lookup name

def get? (scopes : Scopes) (s : ScopeId) (name : String) : Option Value :=
  (scopes.chain s).findSome? fun t => scopes.own? t name

def set (scopes : Scopes) (s : ScopeId) (name : String) (value : Value) : Scopes :=
  ⟨scopes.nodes.modify s fun scope => { scope with bindings := scope.bindings.bind name value }⟩

def root (scopes : Scopes) (s : ScopeId) : ScopeId :=
  (scopes.chain s).getLastD s

def setGlobal (scopes : Scopes) (s : ScopeId) (name : String) (value : Value) : Scopes :=
  scopes.set (scopes.root s) name value

/-- How many scopes a scope lies in, itself included. -/
def depth (scopes : Scopes) (s : ScopeId) : Nat :=
  (scopes.chain s).length

end Scopes

end Scriptlet
