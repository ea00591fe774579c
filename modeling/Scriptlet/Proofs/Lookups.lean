import Scriptlet.Proofs.Chains

/-!
# Scopes after a change

What the scopes bind, and where each of them lies, once a name was bound or a scope was added.
Neither moves a scope that is there already, so lookups go the same way as before.
-/

namespace Scriptlet.Scopes

variable {scopes : Scopes} {s t : ScopeId} {name other : String} {v : Value}

@[simp] theorem size_set (scopes : Scopes) (s : ScopeId) (name : String) (v : Value) :
    (scopes.set s name v).size = scopes.size := by
  simp [set, size]

@[simp] theorem size_add (scopes : Scopes) (scope : Scope) :
    (scopes.add scope).size = scopes.size + 1 := by
  simp [add, size]

@[simp] theorem size_setGlobal (scopes : Scopes) (s : ScopeId) (name : String) (v : Value) :
    (scopes.setGlobal s name v).size = scopes.size :=
  size_set ..

theorem own?_set (scopes : Scopes) (s t : ScopeId) (name other : String) (v : Value) :
    (scopes.set s name v).own? t other =
      if t = s ∧ s < scopes.size ∧ other = name then some v else scopes.own? t other := by
  by_cases hts : t = s
  · subst hts
    by_cases ht : t < scopes.size
    · have hnode : scopes.nodes[t]? = some scopes.nodes[t] := Array.getElem?_eq_getElem ht
      simp [own?, set, Array.getElem?_modify, hnode, Bindings.lookup_bind, ht]
    · have hnode : scopes.nodes[t]? = none := Array.getElem?_eq_none (Nat.le_of_not_lt ht)
      simp [own?, set, Array.getElem?_modify, hnode, ht]
  · simp [own?, set, Array.getElem?_modify, Ne.symm hts, hts]

@[simp] theorem outer?_set (scopes : Scopes) (s t : ScopeId) (name : String) (v : Value) :
    (scopes.set s name v).outer? t = scopes.outer? t := by
  simp only [outer?, set, Array.getElem?_modify]
  split
  · cases scopes.nodes[t]? <;> rfl
  · rfl

theorem own?_add (scopes : Scopes) (scope : Scope) (t : ScopeId) (name : String) :
    (scopes.add scope).own? t name =
      if t = scopes.size then scope.bindings.lookup name else scopes.own? t name := by
  by_cases ht : t = scopes.nodes.size <;> simp [own?, add, size, Array.getElem?_push, ht]

theorem outer?_add (scopes : Scopes) (scope : Scope) (t : ScopeId) :
    (scopes.add scope).outer? t = if t = scopes.size then scope.outer else scopes.outer? t := by
  by_cases ht : t = scopes.nodes.size <;> simp [outer?, add, size, Array.getElem?_push, ht]

theorem eq_of_own?_singleton {o : Option ScopeId} {w : Value}
    (h : own? ⟨#[⟨o, [(name, v)]⟩]⟩ s other = some w) : w = v := by
  cases s with
  | zero =>
    simp only [own?, Bindings.lookup_cons, List.getElem?_toArray, List.getElem?_cons_zero,
      Option.bind_some] at h
    split at h <;> cases h
    rfl
  | succ => cases h

/-- Ways outwards are the same in forests of one size with the same scopes around scopes. -/
theorem chain_congr {scopes' : Scopes} (hsize : scopes.size = scopes'.size)
    (houter : ∀ s, scopes.outer? s = scopes'.outer? s) (s : ScopeId) :
    scopes.chain s = scopes'.chain s := by
  have upTo (limit : Nat) : ∀ s, scopes.chainUpTo limit s = scopes'.chainUpTo limit s := by
    induction limit with
    | zero => exact fun _ => rfl
    | succ limit ih =>
      intro s
      cases ho : scopes.outer? s with
      | some o =>
        have ho' : scopes'.outer? s = some o := houter s ▸ ho
        rw [chainUpTo_of_outer? ho, chainUpTo_of_outer? ho', ih]
      | none =>
        have ho' : scopes'.outer? s = none := houter s ▸ ho
        by_cases hs : s < scopes.size
        · rw [chainUpTo_of_root hs ho, chainUpTo_of_root (hsize ▸ hs) ho']
        · have hle : scopes.size ≤ s := Nat.le_of_not_lt hs
          have hle' : scopes'.size ≤ s := hsize ▸ hle
          have hnode : scopes.nodes[s]? = none := Array.getElem?_eq_none hle
          have hnode' : scopes'.nodes[s]? = none := Array.getElem?_eq_none hle'
          simp [chainUpTo, hnode, hnode']
  rw [chain, chain, hsize, upTo]

theorem lt_size_of_own?_eq_some (h : scopes.own? t name = some v) : t < scopes.size := by
  obtain ⟨scope, ht, -⟩ := Option.bind_eq_some_iff.1 h
  exact (Array.getElem?_eq_some_iff.1 ht).1

/-- A name that means something is bound in a scope of the chain. -/
theorem exists_own?_of_get? (h : scopes.get? s name = some v) :
    ∃ t ∈ scopes.chain s, scopes.own? t name = some v :=
  List.exists_of_findSome?_eq_some h

end Scriptlet.Scopes
