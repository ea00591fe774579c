import Mathlib.Data.Fintype.EquivFin
import Mathlib.Tactic.IntervalCases
import Scriptlet.Proofs.Descent

/-!
# Lookups after a name was bound

Many ways outwards lead through one scope. What gets bound there is seen on those of them on which
no scope further in binds the same name: a name means what the innermost scope on the way says.
Nothing is assumed about the order in which the scopes were made, only that outer scopes exist and
that no way outwards comes back to where it has been.
-/

namespace Scriptlet.Scopes

variable {scopes : Scopes} {s t u : ScopeId} {way : List ScopeId} {name other : String} {v : Value}

/-- Outer scopes exist, and no scope lies in itself, however many scopes are between. -/
structure Forest (scopes : Scopes) : Prop where
  outer_lt : ∀ s o, scopes.outer? s = some o → o < scopes.size
  acyclic : ∀ s, ¬Relation.TransGen (fun s o => scopes.outer? s = some o) s s

/-- Of the scopes on a way outwards, a scope is the first that binds a name. -/
def Innermost (scopes : Scopes) (way : List ScopeId) (name : String) (s : ScopeId) : Prop :=
  ∃ below above, way = below ++ s :: above ∧ (∀ t ∈ below, scopes.own? t name = none) ∧
    (scopes.own? s name).isSome

def Unshadowed (scopes : Scopes) (way : List ScopeId) (name : String) : Prop :=
  ∀ t ∈ way.dropLast, scopes.own? t name = none

/-! ## Ways outwards -/

/-- Going outwards one comes to new scopes only, and there are finitely many. -/
theorem Forest.path (h : scopes.Forest) (hs : s < scopes.size) : ∃ way, scopes.Path s way := by
  let Around (o s : Fin scopes.size) : Prop :=
    Relation.TransGen (fun s o => scopes.outer? s = some o) s.1 o.1
  have htrans : IsTrans _ Around := ⟨fun _ _ _ ho hs => hs.trans ho⟩
  have hirrefl : Std.Irrefl Around := ⟨fun s => h.acyclic s.1⟩
  have hwf : WellFounded Around := Finite.wellFounded_of_trans_of_irrefl Around
  suffices ∀ s : Fin scopes.size, ∃ way, scopes.Path s way from this ⟨s, hs⟩
  intro s
  induction s using hwf.induction with
  | h s ih =>
    cases ho : scopes.outer? s with
    | none => exact ⟨[s.1], .root s.2 ho⟩
    | some o =>
      obtain ⟨way, hway⟩ := ih ⟨o, h.outer_lt s o ho⟩ (.single ho)
      exact ⟨s.1 :: way, .step ho hway⟩

/-- Binding a name changes no way outwards. -/
theorem Path.set (h : scopes.Path t way) (s : ScopeId) (name : String) (v : Value) :
    (scopes.set s name v).Path t way := by
  induction h with
  | root hs ho => exact .root (by simpa using hs) (by simpa using ho)
  | step ho _ ih => exact .step (by simpa using ho) ih

theorem root_set (scopes : Scopes) (s t : ScopeId) (name : String) (v : Value) :
    (scopes.set s name v).root t = scopes.root t := by
  unfold root
  rw [chain_congr (size_set ..) (fun _ => outer?_set ..)]

/-- A way outwards goes on from every scope but the last. -/
theorem Path.eq_root (h : scopes.Path t way) (hu : u ∈ way) (ho : scopes.outer? u = none) :
    u = scopes.root t := by
  have hend : way.getLast? = some (scopes.root t) := h.rooted.last
  obtain ⟨_, ⟨below, rfl⟩, hpath⟩ := h.suffix_of_mem hu
  cases hpath with
  | root => simpa using hend
  | step ho' => simp [ho] at ho'

/-! ## The innermost scope -/

theorem not_innermost_nil : ¬scopes.Innermost [] name s := by
  rintro ⟨_ | _, _, hway, -⟩ <;> cases hway

theorem innermost_cons : scopes.Innermost (t :: way) name s ↔
    (t = s ∧ (scopes.own? s name).isSome) ∨
      (scopes.own? t name = none ∧ scopes.Innermost way name s) := by
  constructor
  · rintro ⟨_ | ⟨u, below⟩, above, hway, hbelow, hs⟩
    · exact .inl ⟨(List.cons.inj hway).1, hs⟩
    · obtain ⟨rfl, rfl⟩ := List.cons.inj hway
      obtain ⟨ht, hbelow⟩ := List.forall_mem_cons.1 hbelow
      exact .inr ⟨ht, below, above, rfl, hbelow, hs⟩
  · rintro (⟨rfl, hs⟩ | ⟨ht, below, above, rfl, hbelow, hs⟩)
    · exact ⟨[], way, rfl, fun _ hu => absurd hu List.not_mem_nil, hs⟩
    · exact ⟨t :: below, above, rfl, List.forall_mem_cons.2 ⟨ht, hbelow⟩, hs⟩

/-- The scope at the end of a way is the innermost that binds a name if it binds it alone. -/
theorem innermost_concat (hs : s ∉ way) : scopes.Innermost (way ++ [s]) name s ↔
    (∀ t ∈ way, scopes.own? t name = none) ∧ (scopes.own? s name).isSome := by
  induction way with
  | nil => simp [innermost_cons, not_innermost_nil]
  | cons t way ih =>
    obtain ⟨ht, hs⟩ := not_or.1 (mt List.mem_cons.2 hs)
    rw [List.cons_append, innermost_cons, ih hs, List.forall_mem_cons, and_assoc]
    simp [Ne.symm ht]

open Classical in
/-- What is found on a way outwards once a name has been bound in a scope. -/
theorem findSome?_own?_set (hs : s < scopes.size) (way : List ScopeId) :
    (way.findSome? fun t => (scopes.set s name v).own? t other) =
      if other = name ∧ (scopes.set s name v).Innermost way name s then some v
      else way.findSome? fun t => scopes.own? t other := by
  by_cases hother : other = name
  · subst hother
    have hself : (scopes.set s other v).own? s other = some v := by simp [own?_set, hs]
    induction way with
    | nil => simp [not_innermost_nil]
    | cons t way ih =>
      by_cases ht : t = s
      · subst ht
        simp [innermost_cons, hself]
      · have hkept : (scopes.set s other v).own? t other = scopes.own? t other := by
          simp [own?_set, ht]
        simp only [List.findSome?_cons, innermost_cons, ht, hkept, false_and, false_or, true_and]
        cases hown : scopes.own? t other with
        | none => simpa using ih
        | some w => simp
  · simp [own?_set, hother]

open Classical in
/-- What is found on a way outwards once a name has been bound in the outermost scope around
another. -/
theorem get?_set_of_outermost {root : ScopeId} (h : scopes.Path t way) (hroot : root < scopes.size)
    (houtermost : scopes.outer? root = none) (name : String) (v : Value) (other : String) :
    (scopes.set root name v).get? t other =
      if other = name ∧ scopes.root t = root ∧ scopes.Unshadowed way name then some v
      else scopes.get? t other := by
  have hinnermost : (scopes.set root name v).Innermost way name root ↔
      scopes.root t = root ∧ scopes.Unshadowed way name := by
    obtain ⟨below, hway⟩ := List.getLast?_eq_some_iff.1 h.rooted.last
    have hnodup : scopes.root t ∉ below := by
      have hnodup := h.nodup
      rw [hway] at hnodup
      exact fun hmem => (List.nodup_append.1 hnodup).2.2 _ hmem _ (List.mem_singleton_self _) rfl
    by_cases hsame : scopes.root t = root
    · subst hsame
      have hbound : (scopes.set (scopes.root t) name v).own? (scopes.root t) name = some v := by
        simp [own?_set, hroot]
      rw [hway, innermost_concat hnodup, Unshadowed, List.dropLast_concat]
      refine ⟨fun hbelow => ⟨rfl, fun u hu => ?_⟩, fun hbelow => ⟨fun u hu => ?_, by simp [hbound]⟩⟩
      · have hne : u ≠ scopes.root t := fun he => hnodup (he ▸ hu)
        simpa [own?_set, hne] using hbelow.1 u hu
      · have hne : u ≠ scopes.root t := fun he => hnodup (he ▸ hu)
        simpa [own?_set, hne] using hbelow.2 u hu
    · refine iff_of_false (fun ⟨below, above, hmem, _⟩ => hsame ?_) fun hroots => hsame hroots.1
      exact (h.eq_root (by simp [hmem]) houtermost).symm
  rw [(h.set root name v).rooted.get?, findSome?_own?_set hroot, ← h.rooted.get?]
  simp only [hinnermost]

/-! ## Binding a name -/

open Classical in
/-- Whatever gets bound where, no scope moves, and each scope has as many scopes on its way outwards
as its depth says. A name that is bound in a scope is seen so from everywhere where that scope is now
the innermost that binds it. A name that is bound globally is bound in the outermost scope alone, and
seen so from everywhere below that leaves the name to it. -/
theorem bindings_shadow_lexically {scopes : Scopes} (h : scopes.Forest) {s : ScopeId}
    (hs : s < scopes.size) (name : String) (v : Value) :
    let bound := scopes.set s name v
    let global := scopes.setGlobal s name v
    let root := scopes.root s
    (∀ t, global.outer? t = scopes.outer? t ∧ (t ≠ root → global.nodes[t]? = scopes.nodes[t]?)) ∧
    (∀ other, global.own? root other =
      if other = name then some v else scopes.own? root other) ∧
    ∀ t < scopes.size, ∃ way,
      scopes.Rooted t way (scopes.root t) ∧ bound.Rooted t way (scopes.root t) ∧
      global.Rooted t way (scopes.root t) ∧
      (∀ other, bound.get? t other =
        if other = name ∧ bound.Innermost way name s then some v else scopes.get? t other) ∧
      (∀ other, global.get? t other =
        if other = name ∧ scopes.root t = root ∧ scopes.Unshadowed way name then some v
        else scopes.get? t other) ∧
      ((∀ w, (scopes.setGlobal s name w).get? t name = some w) ↔
        scopes.root t = root ∧ scopes.Unshadowed way name) := by
  intro bound global root
  obtain ⟨home, hhome⟩ := h.path hs
  have houtermost : scopes.outer? root = none := hhome.rooted.outermost
  have hroot : root < scopes.size := hhome.lt_size _ (List.mem_of_getLast? hhome.rooted.last)
  refine ⟨fun t => ⟨outer?_set .., fun ht => ?others⟩, fun other => ?store, fun t ht => ?chains⟩
  case others => simp [global, setGlobal, set, Array.getElem?_modify, Ne.symm ht, root]
  case store => simp [global, setGlobal, own?_set, hroot, root]
  case chains =>
    obtain ⟨way, hway⟩ := h.path ht
    have hglobal := get?_set_of_outermost hway hroot houtermost name
    refine ⟨way, hway.rooted, ?_, ?_, fun other => ?_, hglobal v, fun hseen => ?_, fun hseen w => ?_⟩
    · exact root_set scopes s t name v ▸ (hway.set s name v).rooted
    · exact root_set scopes root t name v ▸ (hway.set root name v).rooted
    · rw [(hway.set s name v).rooted.get?, findSome?_own?_set hs, ← hway.rooted.get?]
    · -- what the name meant before is one value only
      by_contra hnot
      have hkept (w : Value) : some w = scopes.get? t name := by
        rw [← hseen w, setGlobal, hglobal w name, if_neg fun hnow => hnot hnow.2]
      cases (hkept (.bool true)).trans (hkept (.bool false)).symm
    · rw [setGlobal, hglobal w name, if_pos ⟨rfl, hseen⟩]

/-- Two scopes inside of a global one that is younger than both, and a third inside of the second. A
name that both the first and the global scope bind gets bound in the second one, and again
globally. -/
theorem bindings_shadow_lexically_of_siblings :
    let scopes : Scopes := ⟨#[⟨some 2, [("x", .int 1)]⟩, ⟨some 2, []⟩, ⟨none, [("x", .int 0)]⟩,
      ⟨some 1, []⟩]⟩
    let bound := scopes.set 1 "x" (.str "a")
    let global := scopes.setGlobal 1 "x" .nil
    scopes.Forest ∧ bound.get? 3 "x" = some (.str "a") ∧ bound.get? 0 "x" = some (.int 1) ∧
      global.get? 3 "x" = some .nil ∧ global.get? 0 "x" = some (.int 1) ∧
      global.depth 3 = 3 := by
  intro scopes bound global
  let rank (s : ScopeId) : Nat := [1, 1, 0, 2].getD s 0
  have houter : ∀ s o, scopes.outer? s = some o → o < scopes.size ∧ rank o < rank s := by
    intro s o ho
    have hs : s < 4 := lt_size_of_outer?_eq_some ho
    interval_cases s <;> cases ho <;> decide
  have hforest : scopes.Forest := by
    refine ⟨fun s o ho => (houter s o ho).1, fun s hcycle => ?_⟩
    have hdown {s o : ScopeId} (hso : Relation.TransGen (fun s o => scopes.outer? s = some o) s o) :
        rank o < rank s := by
      induction hso with
      | single ho => exact (houter _ _ ho).2
      | tail _ ho ih => exact Nat.lt_trans (houter _ _ ho).2 ih
    exact Nat.lt_irrefl _ (hdown hcycle)
  obtain ⟨-, -, hlocal⟩ := bindings_shadow_lexically hforest (s := 1) (by decide) "x" (.str "a")
  obtain ⟨-, -, hglobal⟩ := bindings_shadow_lexically hforest (s := 1) (by decide) "x" .nil
  have hthird : scopes.Path 3 [3, 1, 2] := .step rfl (.step rfl (.root (by decide) rfl))
  have hfirst : scopes.Path 0 [0, 2] := .step rfl (.root (by decide) rfl)
  have hnow : bound.Innermost [3, 1, 2] "x" 1 :=
    ⟨[3], [2], rfl, by decide, by decide⟩
  have hnever : ¬bound.Innermost [0, 2] "x" 1 := fun ⟨below, above, hway, _⟩ =>
    absurd (show 1 ∈ [0, 2] by rw [hway]; simp) (by decide)
  refine ⟨hforest, ?_, ?_, ?_, ?_, ?_⟩
  · obtain ⟨way, hway, -, -, hset, -⟩ := hlocal 3 (by decide)
    rw [hset "x", hway.path.unique hthird, if_pos ⟨rfl, hnow⟩]
  · obtain ⟨way, hway, -, -, hset, -⟩ := hlocal 0 (by decide)
    rw [hset "x", hway.path.unique hfirst, if_neg (fun h => hnever h.2)]
    decide
  · obtain ⟨way, hway, -, -, -, hset, -⟩ := hglobal 3 (by decide)
    rw [hset "x", hway.path.unique hthird, if_pos ⟨rfl, by decide, by unfold Unshadowed; decide⟩]
  · obtain ⟨way, hway, -, -, -, hset, -⟩ := hglobal 0 (by decide)
    rw [hset "x", hway.path.unique hfirst, if_neg fun h => absurd (h.2.2 0 (by decide)) (by decide)]
    decide
  · obtain ⟨way, hway, -, hafter, -⟩ := hglobal 3 (by decide)
    rw [hafter.depth, hway.path.unique hthird]
    rfl

end Scriptlet.Scopes
