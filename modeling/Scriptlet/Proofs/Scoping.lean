import Scriptlet.Proofs.Likeness
import Scriptlet.Proofs.Upkeep

/-!
# Scopes that exist

A function captures a scope, and a scope lies in another. In every state that a run can be in, the
scopes meant by either are there already when they are named. So all chains of scopes end, and the
last scope of each has none around it.
-/

namespace Scriptlet

/-- All functions that a value is or arrives as captured one of the first `n` scopes. -/
def Value.ScopesBelow (n : Nat) : Value → Prop
  | func c => c.scope < n
  | returned v => v.ScopesBelow n
  | _ => True

/-- Every scope lies in an older one, and functions in scopes and lists captured scopes that
exist. -/
structure Machine.Scoped (m : Machine) : Prop where
  outer : ∀ s o, m.scopes.outer? s = some o → o < s
  bound : ∀ s name v, m.scopes.own? s name = some v → v.ScopesBelow m.scopes.size
  listed : ∀ a, ∀ v ∈ m.lists.elements a, v.ScopesBelow m.scopes.size

namespace Value.ScopesBelow

variable {n n' : Nat} {v : Value}

theorem mono (h : v.ScopesBelow n) (hn : n ≤ n') : v.ScopesBelow n' := by
  induction v with
  | func c => exact Nat.lt_of_lt_of_le h hn
  | returned v ih => exact ih h
  | _ => trivial

theorem of_isAtom (h : v.isAtom = true) : v.ScopesBelow n := by
  cases v with
  | func => cases h
  | returned => cases h
  | _ => trivial

theorem arrived (h : v.ScopesBelow n) : v.arrived.ScopesBelow n := by
  cases v with
  | returned v => exact h
  | _ => exact h

theorem alike {R : ScopeId → ScopeId → Prop} (h : v.ScopesBelow n) (hR : ∀ s < n, R s s) :
    v.Alike R v := by
  induction v with
  | list a => exact .list a
  | func c => exact .func (hR c.scope h) c.label c.params c.body
  | returned v ih => exact .returned (ih h)
  | _ => exact .atom rfl

end Value.ScopesBelow

def Invariant.scoped : Invariant where
  value n _ v := v.ScopesBelow n
  fault _ _ _ := True
  outer s o := o < s
  value_mono hn _ h := h.mono hn
  fault_mono _ _ h := h
  atom := Value.ScopesBelow.of_isAtom
  list _ _ := trivial
  func h := h
  arrived := Value.ScopesBelow.arrived
  fault_of_values _ := trivial
  outer_of_lt h := h
  outer_of_func h := h

namespace Machine

variable {m : Machine} {s : ScopeId}

theorem scoped_iff : m.Scoped ↔ m.Obeys .scoped :=
  ⟨fun h => ⟨h.bound, h.outer, ⟨Nat.zero_le _, h.listed⟩, fun _ _ => trivial⟩,
    fun h => ⟨h.outer, h.bound, h.listed.element⟩⟩

theorem scoped_newRoot : Machine.empty.newRoot.2.Scoped where
  outer s o h := by
    match s with
    | 0 => cases h
    | _ + 1 => cases h
  bound s name v h := by
    match s with
    | 0 => cases h
    | _ + 1 => cases h
  listed a v h := by cases h

theorem Scoped.founded (h : m.Scoped) : m.scopes.Founded m.scopes.size :=
  ⟨Nat.le_refl _, fun s _ => h.outer s⟩

theorem Scoped.path (h : m.Scoped) (hs : s < m.scopes.size) : ∃ l, m.scopes.Path s l :=
  h.founded.path hs

theorem Scoped.root_lt (h : m.Scoped) (hs : s < m.scopes.size) :
    m.scopes.root s < m.scopes.size := by
  obtain ⟨l, hl⟩ := h.path hs
  exact hl.lt_size _ (hl.chain_eq ▸ Scopes.root_mem_chain hs)

theorem Scoped.outer?_root (h : m.Scoped) (hs : s < m.scopes.size) :
    m.scopes.outer? (m.scopes.root s) = none :=
  h.founded.outer?_root (h.root_lt hs)

end Machine

end Scriptlet
