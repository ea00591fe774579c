import Scriptlet.Console
import Scriptlet.Fault
import Scriptlet.Scope

/-!
# Built-in functions

A built-in function is known by its name. It sees its arguments, and can read and change all that
they lead to: lists, and the scopes that functions captured. It either gives a value or says why
there is none, or it does not end. Most built-in functions have nothing to do with scopes
(`Builtin.onLists`), do not print and leave everything as it was when they fail (`Builtin.pure`).
-/

namespace Scriptlet

structure Store where
  scopes : Scopes
  lists : Lists
  console : Console

/-- What a built-in function does, unless it does not end. -/
abbrev Builtin.Action := Sink → List Value → Store → Option (Except Fault Value × Store)

structure Builtin where
  name : String
  action : Builtin.Action

namespace Builtin

/-- A built-in function that neither looks into scopes nor changes one. -/
def onLists (name : String)
    (f : Sink → List Value → Lists → Console → Option (Except Fault Value × Lists × Console)) :
    Builtin where
  name := name
  action := fun sink args store =>
    (f sink args store.lists store.console).map fun (result, lists, console) =>
      (result, ⟨store.scopes, lists, console⟩)

/-- A built-in function that moreover prints nothing and, if it fails, changes nothing. -/
def pure (name : String) (f : List Value → Lists → Except Fault (Value × Lists)) : Builtin :=
  .onLists name fun _ args lists console =>
    match f args lists with
    | .ok (v, lists) => some (.ok v, lists, console)
    | .error fault => some (.error fault, lists, console)

def Scopeless (b : Builtin) : Prop :=
  ∃ f, b = .onLists b.name f

def LeavesScopes (b : Builtin) : Prop :=
  ∀ sink args store result after, b.action sink args store = some (result, after) →
    after.scopes = store.scopes

/-- Whether a built-in function cannot tell apart what is the same but for scopes, if these stand in
a relation. Then they still do so afterwards. -/
def BlindTo (rel : Scopes → Scopes → Prop) (b : Builtin) : Prop :=
  ∀ sink args store scopes', rel store.scopes scopes' →
    Option.Rel (fun r r' => r.1 = r'.1 ∧ rel r.2.scopes r'.2.scopes ∧ r.2.lists = r'.2.lists ∧
      r.2.console = r'.2.console)
      (b.action sink args store) (b.action sink args ⟨scopes', store.lists, store.console⟩)

theorem scopeless_onLists (name : String)
    (f : Sink → List Value → Lists → Console → Option (Except Fault Value × Lists × Console)) :
    (onLists name f).Scopeless :=
  ⟨f, rfl⟩

theorem scopeless_pure (name : String)
    (f : List Value → Lists → Except Fault (Value × Lists)) : (Builtin.pure name f).Scopeless :=
  scopeless_onLists name _

theorem Scopeless.leavesScopes {b : Builtin} (h : b.Scopeless) : b.LeavesScopes := by
  obtain ⟨f, hf⟩ := h
  rw [hf]
  intro sink args store result after haction
  simp only [onLists, Option.map_eq_some_iff] at haction
  obtain ⟨_, -, haction⟩ := haction
  cases haction
  rfl

theorem Scopeless.blindTo {b : Builtin} (h : b.Scopeless) (rel : Scopes → Scopes → Prop) :
    b.BlindTo rel := by
  obtain ⟨f, hf⟩ := h
  rw [hf]
  intro sink args store scopes' hscopes
  simp only [onLists]
  cases f sink args store.lists store.console with
  | none => exact .none
  | some r => exact .some ⟨rfl, hscopes, rfl, rfl⟩

end Builtin

/-- The built-in functions that programs can call, each name at most once. -/
structure Builtins where
  table : List Builtin

namespace Builtins

def empty : Builtins := ⟨[]⟩

def find? (builtins : Builtins) (name : String) : Option Builtin :=
  builtins.table.find? fun b => b.name == name

def has (builtins : Builtins) (name : String) : Bool :=
  (builtins.find? name).isSome

def register (builtins : Builtins) (b : Builtin) : Builtins :=
  ⟨b :: builtins.table.filter fun old => old.name != b.name⟩

end Builtins

end Scriptlet
