import Scriptlet.Scope

/-!
# Chains of scopes

`Scopes.chain` stops after as many scopes as there are. Here is why that cuts nothing off: a way
outwards that ends (`Scopes.Path`) meets no scope twice. Nothing is assumed about the scopes that
are not on the way.
-/

namespace Scriptlet.Scopes

variable {scopes : Scopes} {s t o : ScopeId} {l l' : List ScopeId}

def outer? (scopes : Scopes) (s : ScopeId) : Option ScopeId :=
  scopes.nodes[s]?.bind Scope.outer

theorem lt_size_of_outer?_eq_some (h : scopes.outer? s = some o) : s < scopes.size := by
  obtain ⟨scope, hs, -⟩ := Option.bind_eq_some_iff.1 h
  exact (Array.getElem?_eq_some_iff.1 hs).1

theorem chainUpTo_of_outer? (h : scopes.outer? s = some o) (limit : Nat) :
    scopes.chainUpTo (limit + 1) s = s :: scopes.chainUpTo limit o := by
  obtain ⟨scope, hs, ho⟩ := Option.bind_eq_some_iff.1 h
  simp [chainUpTo, hs, ho]

theorem chainUpTo_of_root (hs : s < scopes.size) (h : scopes.outer? s = none) (limit : Nat) :
    scopes.chainUpTo (limit + 1) s = [s] := by
  have hnode : scopes.nodes[s]? = some scopes.nodes[s] := Array.getElem?_eq_getElem hs
  simp only [outer?, hnode, Option.bind_some] at h
  simp [chainUpTo, hnode, h]

/-! ## Ways outwards -/

/-- The scopes from one outwards, as far as one with none around it. -/
inductive Path (scopes : Scopes) : ScopeId → List ScopeId → Prop
  | root {s : ScopeId} (hs : s < scopes.size) (h : scopes.outer? s = none) : Path scopes s [s]
  | step {s o : ScopeId} {l : List ScopeId} (h : scopes.outer? s = some o)
      (hp : Path scopes o l) : Path scopes s (s :: l)

namespace Path

theorem unique (h : scopes.Path s l) (h' : scopes.Path s l') : l = l' := by
  induction h generalizing l' with
  | root hs h =>
    cases h' with
    | root => rfl
    | step h'' => simp [h] at h''
  | step h hp ih =>
    cases h' with
    | root hs h'' => simp [h] at h''
    | step h'' hp' =>
      obtain rfl := Option.some.inj (h.symm.trans h'')
      rw [ih hp']

theorem lt_size (h : scopes.Path s l) : ∀ t ∈ l, t < scopes.size := by
  induction h with
  | root hs h =>
    intro t ht
    obtain rfl := List.mem_singleton.1 ht
    exact hs
  | step h hp ih =>
    intro t ht
    rcases List.mem_cons.1 ht with rfl | ht
    · exact lt_size_of_outer?_eq_some h
    · exact ih t ht

theorem suffix_of_mem (h : scopes.Path s l) (ht : t ∈ l) : ∃ l', l' <:+ l ∧ scopes.Path t l' := by
  induction h with
  | @root s hs h =>
    obtain rfl := List.mem_singleton.1 ht
    exact ⟨[t], List.suffix_refl _, .root hs h⟩
  | @step s o l h hp ih =>
    rcases List.mem_cons.1 ht with rfl | ht
    · exact ⟨t :: l, List.suffix_refl _, .step h hp⟩
    · obtain ⟨l', hl', hp'⟩ := ih ht
      exact ⟨l', hl'.trans (List.suffix_cons _ _), hp'⟩

/-- No scope is met twice: the way from there on would be longer than itself. -/
theorem nodup (h : scopes.Path s l) : l.Nodup := by
  induction h with
  | root => simp
  | @step s o l h hp ih =>
    refine List.nodup_cons.2 ⟨fun hs => ?_, ih⟩
    obtain ⟨l', hl', hp'⟩ := hp.suffix_of_mem hs
    have hlen := hl'.length_le
    rw [hp'.unique (.step h hp), List.length_cons] at hlen
    omega

theorem length_le (h : scopes.Path s l) : l.length ≤ scopes.size := by
  have hsub : l ⊆ List.range scopes.size := fun t ht => List.mem_range.2 (h.lt_size t ht)
  simpa using h.nodup.length_le_of_subset hsub

theorem chainUpTo_eq (h : scopes.Path s l) {limit : Nat} (hlimit : l.length ≤ limit) :
    scopes.chainUpTo limit s = l := by
  induction h generalizing limit with
  | root hs h =>
    obtain ⟨limit, rfl⟩ := Nat.exists_eq_succ_of_ne_zero (Nat.one_le_iff_ne_zero.1 hlimit)
    exact chainUpTo_of_root hs h limit
  | step h hp ih =>
    rw [List.length_cons] at hlimit
    obtain ⟨limit, rfl⟩ := Nat.exists_eq_succ_of_ne_zero (Nat.ne_zero_of_lt hlimit)
    rw [chainUpTo_of_outer? h, ih (Nat.le_of_succ_le_succ hlimit)]

theorem chain_eq (h : scopes.Path s l) : scopes.chain s = l :=
  h.chainUpTo_eq h.length_le

theorem outer?_getLastD (h : scopes.Path s l) (d : ScopeId) :
    scopes.outer? (l.getLastD d) = none := by
  induction h generalizing d with
  | root hs h => exact h
  | @step s o l h hp ih =>
    rw [List.getLastD_cons]
    exact ih s

end Path

theorem path_of_mem_chainUpTo {limit : Nat} (ht : t ∈ scopes.chainUpTo limit s)
    (hp : scopes.Path t l) : ∃ l', scopes.Path s l' := by
  induction limit generalizing s with
  | zero => simp [chainUpTo] at ht
  | succ limit ih =>
    cases ho : scopes.outer? s with
    | none =>
      by_cases hs : s < scopes.size
      · exact ⟨[s], .root hs ho⟩
      · have hnode : scopes.nodes[s]? = none := Array.getElem?_eq_none (Nat.le_of_not_lt hs)
        simp [chainUpTo, hnode] at ht
    | some o =>
      rw [chainUpTo_of_outer? ho] at ht
      rcases List.mem_cons.1 ht with rfl | ht
      · exact ⟨l, hp⟩
      · obtain ⟨l', hl'⟩ := ih ht
        exact ⟨s :: l', .step ho hl'⟩

/-! ## Scopes made in order -/

/-- The first `n` scopes exist, and each of them lies in one that is older. Later scopes may lie
anywhere. -/
structure Founded (scopes : Scopes) (n : Nat) : Prop where
  le_size : n ≤ scopes.size
  outer_lt : ∀ s < n, ∀ o, scopes.outer? s = some o → o < s

theorem Founded.path {n : Nat} (h : scopes.Founded n) (hs : s < n) : ∃ l, scopes.Path s l := by
  induction s using Nat.strongRecOn with
  | ind s ih =>
    cases ho : scopes.outer? s with
    | none => exact ⟨[s], .root (Nat.lt_of_lt_of_le hs h.le_size) ho⟩
    | some o =>
      have hlt := h.outer_lt s hs o ho
      obtain ⟨l, hl⟩ := ih o hlt (Nat.lt_trans hlt hs)
      exact ⟨s :: l, .step ho hl⟩

theorem chain_ne_nil (hs : s < scopes.size) : scopes.chain s ≠ [] := by
  obtain ⟨k, hk⟩ := Nat.exists_eq_succ_of_ne_zero (Nat.ne_zero_of_lt hs)
  rw [chain, hk]
  cases ho : scopes.outer? s with
  | none => simp [chainUpTo_of_root hs ho]
  | some o => simp [chainUpTo_of_outer? ho]

theorem root_mem_chain (hs : s < scopes.size) : scopes.root s ∈ scopes.chain s := by
  cases hc : scopes.chain s with
  | nil => exact absurd hc (chain_ne_nil hs)
  | cons t ts =>
    rw [root, hc, List.getLastD_cons]
    exact List.getLastD_mem_cons

theorem root_of_size_le (hs : scopes.size ≤ s) : scopes.root s = s := by
  have hnode : scopes.nodes[s]? = none := Array.getElem?_eq_none hs
  cases hk : scopes.size <;> simp [root, chain, hk, chainUpTo, hnode]

/-- A chain that ends in an old scope ends where it should. -/
theorem Founded.outer?_root {n : Nat} (h : scopes.Founded n) (hroot : scopes.root s < n) :
    scopes.outer? (scopes.root s) = none := by
  have hs : s < scopes.size := by
    by_cases hs : s < scopes.size
    · exact hs
    · have hle := Nat.le_of_not_lt hs
      rw [root_of_size_le hle] at hroot
      exact absurd (Nat.lt_of_lt_of_le hroot h.le_size) hs
  obtain ⟨l, hl⟩ := h.path hroot
  obtain ⟨l', hl'⟩ := path_of_mem_chainUpTo (root_mem_chain hs) hl
  rw [root, hl'.chain_eq]
  exact hl'.outer?_getLastD s

/-- The outermost scope does not bind a name that means nothing. -/
theorem own?_root_eq_none {name : String} (h : scopes.get? s name = none) :
    scopes.own? (scopes.root s) name = none := by
  by_cases hs : s < scopes.size
  · exact List.findSome?_eq_none_iff.1 h _ (root_mem_chain hs)
  · have hle := Nat.le_of_not_lt hs
    have hnode : scopes.nodes[s]? = none := Array.getElem?_eq_none hle
    simp [root_of_size_le hle, own?, hnode]

end Scriptlet.Scopes
