import Mathlib.Logic.Relation
import Scriptlet.Proofs.Scoping
import Scriptlet.Session

/-!
# Stores without bottomless lists

A function can be bound in the scope that it captured, so the store of a session may well have
cycles. They all lead through a function: the elements of a list refer to older lists only, and a
scope lies in an older one. Everything that an embedder can do to a session keeps this, and with it
that whatever a value refers to exists.
-/

namespace Scriptlet

def Value.list? : Value → Option ListId
  | list a => some a
  | returned v => v.list?
  | _ => none

/-- A value refers to the first `n` scopes and the first `k` lists only. -/
structure Value.RefersBelow (n k : Nat) (v : Value) : Prop where
  scope : v.ScopesBelow n
  list : ∀ a, v.list? = some a → a < k

/-- A list contains another: one of its elements is the other list or arrives as it. -/
def Lists.Contains (lists : Lists) (a b : ListId) : Prop :=
  ∃ v ∈ lists.elements a, v.list? = some b

/-- All that values refer to exists. A scope lies in an older one, and a list refers to older lists
only. -/
structure Machine.Grounded (m : Machine) : Prop where
  outer : ∀ s o, m.scopes.outer? s = some o → o < s
  bound : ∀ s name v, m.scopes.own? s name = some v →
    v.RefersBelow m.scopes.size m.lists.size
  listed : ∀ a, ∀ v ∈ m.lists.elements a, v.RefersBelow m.scopes.size a
  noted : ∀ fault ∈ m.faults, ∀ v ∈ fault.values, v.RefersBelow m.scopes.size m.lists.size

namespace Value.RefersBelow

variable {n n' k k' : Nat} {v : Value}

theorem mono (h : v.RefersBelow n k) (hn : n ≤ n') (hk : k ≤ k') : v.RefersBelow n' k' :=
  ⟨h.scope.mono hn, fun a ha => Nat.lt_of_lt_of_le (h.list a ha) hk⟩

theorem of_isAtom (h : v.isAtom = true) : v.RefersBelow n k where
  scope := .of_isAtom h
  list a ha := by
    cases v with
    | list => cases h
    | returned => cases h
    | _ => cases ha

theorem arrived (h : v.RefersBelow n k) : v.arrived.RefersBelow n k where
  scope := h.scope.arrived
  list a ha := h.list a (by cases v <;> exact ha)

theorem returned (h : v.RefersBelow n k) : (Value.returned v).RefersBelow n k :=
  ⟨h.scope, h.list⟩

theorem of_returned (h : (Value.returned v).RefersBelow n k) : v.RefersBelow n k :=
  ⟨h.scope, h.list⟩

end Value.RefersBelow

def Invariant.grounded : Invariant where
  value n k v := v.RefersBelow n k
  fault n k fault := ∀ v ∈ fault.values, v.RefersBelow n k
  outer s o := o < s
  value_mono hn hk h := h.mono hn hk
  fault_mono hn hk h v hv := (h v hv).mono hn hk
  atom := Value.RefersBelow.of_isAtom
  list _ ha := ⟨trivial, fun _ hb => Option.some.inj hb ▸ ha⟩
  func hs := ⟨hs, fun _ ha => nomatch ha⟩
  arrived := Value.RefersBelow.arrived
  fault_of_values h := h
  outer_of_lt h := h
  outer_of_func h := h.scope

theorem Machine.grounded_iff {m : Machine} : m.Grounded ↔ m.Obeys .grounded :=
  ⟨fun h => ⟨h.bound, h.outer, ⟨Nat.zero_le _, h.listed⟩, h.noted⟩,
    fun h => ⟨h.outer, h.bound, h.listed.element, h.noted⟩⟩

theorem Machine.Grounded.scoped {m : Machine} (h : m.Grounded) : m.Scoped where
  outer := h.outer
  bound s name v hv := (h.bound s name v hv).scope
  listed a v hv := (h.listed a v hv).scope

/-- What a list contains, at any depth, is older than the list. -/
theorem Machine.Grounded.lt_of_contains {m : Machine} (h : m.Grounded) {a b : ListId}
    (hab : Relation.TransGen m.lists.Contains a b) : b < a := by
  have step {a b : ListId} : m.lists.Contains a b → b < a := fun ⟨v, hv, hb⟩ =>
    (h.listed a v hv).list b hb
  induction hab with
  | single hab => exact step hab
  | tail _ hbc ih => exact Nat.lt_trans (step hbc) ih

/-! ## Values from outside -/

section

variable {inv : Invariant} {n : Nat}

/-- What is built keeps a property that does not care whether a value is on its way out. -/
structure Builds (inv : Invariant) (n : Nat) (lists : Lists) (vs : List Value) (after : Lists) :
    Prop where
  size_le : lists.size ≤ after.size
  obeys : after.Obeys inv n
  values : ∀ v ∈ vs, inv.value n after.size v

theorem Builds.cons {lists lists₁ lists₂ : Lists} {v : Value} {vs : List Value}
    (h : Builds inv n lists [v] lists₁) (hs : Builds inv n lists₁ vs lists₂) :
    Builds inv n lists (v :: vs) lists₂ where
  size_le := Nat.le_trans h.size_le hs.size_le
  obeys := hs.obeys
  values := List.forall_mem_cons.2 ⟨inv.value_mono (Nat.le_refl n) hs.size_le
    (h.values v (List.mem_singleton_self v)), hs.values⟩

theorem builds_atom {lists : Lists} (h : lists.Obeys inv n) {v : Value} (hv : v.isAtom = true) :
    Builds inv n lists [v] lists :=
  ⟨Nat.le_refl _, h, List.forall_mem_singleton.2 (inv.atom hv)⟩

mutual

theorem Datum.builds (hreturned : ∀ {k v}, inv.value n k v → inv.value n k (.returned v)) :
    ∀ (d : Datum) {lists : Lists}, lists.Obeys inv n →
      Builds inv n lists [(d.build lists).1] (d.build lists).2
  | .int _, _, h | .bool _, _, h | .str _, _, h | .nil, _, h | .builtin _, _, h => builds_atom h rfl
  | .list ds, lists, h => by
    have hs := buildAll_builds hreturned ds h
    have hsize := Lists.size_alloc (buildAll lists ds).2 (buildAll lists ds).1
    exact ⟨Nat.le_trans hs.size_le (Nat.le.intro hsize.symm), hs.obeys.alloc hs.values,
      List.forall_mem_singleton.2
        (inv.list hs.obeys.floor_le (Nat.lt_of_succ_le (Nat.le_of_eq hsize.symm)))⟩
  | .returned d, lists, h => by
    have hd := d.builds hreturned h
    exact ⟨hd.size_le, hd.obeys,
      List.forall_mem_singleton.2 (hreturned (hd.values _ (List.mem_singleton_self _)))⟩

theorem buildAll_builds (hreturned : ∀ {k v}, inv.value n k v → inv.value n k (.returned v)) :
    ∀ (ds : List Datum) {lists : Lists}, lists.Obeys inv n →
      Builds inv n lists (buildAll lists ds).1 (buildAll lists ds).2
  | [], _, h => ⟨Nat.le_refl _, h, fun _ hv => absurd hv List.not_mem_nil⟩
  | d :: ds, _, h =>
    (d.builds hreturned h).cons (buildAll_builds hreturned ds (d.builds hreturned h).obeys)

end

/-- Lists that were added, with what the state says of the new ones. -/
theorem Machine.Obeys.lists {m : Machine} (h : m.Obeys inv) {after : Lists}
    (hsize : m.lists.size ≤ after.size) (hafter : after.Obeys inv m.scopes.size) :
    Machine.Obeys inv { m with lists := after } where
  bound s name v hv := (h.bound s name v hv).mono ⟨Nat.le_refl _, hsize⟩
  outer := h.outer
  listed := hafter
  noted f hf := inv.fault_mono (Nat.le_refl _) hsize (h.noted f hf)

end

/-! ## Sessions -/

/-- A session as an embedder can have brought it about with the standard built-in functions, and
values that the embedder has got hold of on the way. -/
inductive Session.Reachable : Session → List Value → Prop
  | start (options : Options) (sink : Sink) :
    Reachable (.start { options, builtins := .standard, sink }) []
  | evaluate {session after : Session} {held : List Value} (h : Reachable session held)
    (fuel : Nat) (program : Program) {s : ScopeId} (hs : s < session.machine.scopes.size)
    {v : Value} (hv : session.evaluate fuel program s = some (v, after)) :
    Reachable after (v :: held)
  | enclose {session : Session} {held : List Value} (h : Reachable session held) {s : ScopeId}
    (hs : s < session.machine.scopes.size) : Reachable (session.enclose s).2 held
  /-- A value is built from a description. -/
  | build {session : Session} {held : List Value} (h : Reachable session held) (d : Datum) :
    Reachable (session.build d).2 ((session.build d).1 :: held)
  /-- A list is built of values that are there already. -/
  | gather {session : Session} {held vs : List Value} (h : Reachable session held)
    (hvs : vs ⊆ held) : Reachable
      { session with machine := (session.machine.newList vs).2 }
      ((session.machine.newList vs).1 :: held)
  /-- A function is built, with a scope that is there already. -/
  | capture {session : Session} {held : List Value} (h : Reachable session held) (c : Closure)
    (hc : c.scope < session.machine.scopes.size) : Reachable session (.func c :: held)
  | get {session : Session} {held : List Value} (h : Reachable session held) {s : ScopeId}
    {name : String} {v : Value} (hv : session.get? s name = some v) : Reachable session (v :: held)
  | set {session : Session} {held : List Value} (h : Reachable session held) {v : Value}
    (hv : v ∈ held) (s : ScopeId) (name : String) : Reachable (session.set s name v) held
  | setGlobal {session : Session} {held : List Value} (h : Reachable session held) {v : Value}
    (hv : v ∈ held) (s : ScopeId) (name : String) : Reachable (session.setGlobal s name v) held
  | setOptions {session : Session} {held : List Value} (h : Reachable session held)
    (options : Options) : Reachable (session.setOptions options) held
  | takeFaults {session : Session} {held : List Value} (h : Reachable session held) :
    Reachable session.takeFaults.2 (session.faults.flatMap Fault.values ++ held)

structure Session.Keeps (inv : Invariant) (session : Session) (held : List Value) : Prop where
  builtins : session.context.builtins = .standard
  obeys : session.machine.Obeys inv
  admits : ∀ v ∈ held, session.machine.Admits inv v

namespace Session.Keeps

variable {inv : Invariant} {session : Session} {held : List Value} {v : Value}

/-- A step to another state, with one more value. -/
theorem reaches (h : session.Keeps inv held) {after : Session}
    (hcontext : after.context.builtins = session.context.builtins)
    (hr : session.machine.Reaches inv v after.machine) : after.Keeps inv (v :: held) where
  builtins := hcontext.trans h.builtins
  obeys := hr.obeys
  admits := List.forall_mem_cons.2 ⟨hr.admits, fun w hw => (h.admits w hw).mono hr.grown⟩

/-- A step to another state. -/
theorem grows (h : session.Keeps inv held) {after : Session}
    (hcontext : after.context.builtins = session.context.builtins)
    (hgrown : session.machine.Grown after.machine) (hobeys : after.machine.Obeys inv) :
    after.Keeps inv held :=
  ⟨hcontext.trans h.builtins, hobeys, fun w hw => (h.admits w hw).mono hgrown⟩

theorem evaluate (h : session.Keeps inv held) {fuel : Nat} {program : Program} {s : ScopeId}
    (hs : s < session.machine.scopes.size) {after : Session}
    (hv : session.evaluate fuel program s = some (v, after)) : after.Keeps inv (v :: held) := by
  have hb : session.context.builtins.Respect inv := h.builtins ▸ Builtins.standard_respect inv
  obtain ⟨⟨w, m⟩, hrun, hafter⟩ := Option.map_eq_some_iff.1 hv
  cases hafter
  exact h.reaches rfl (evalProgram_reaches hb h.obeys hs fuel _ _ _ hrun)

theorem build (h : session.Keeps inv held)
    (hreturned : ∀ {n k v}, inv.value n k v → inv.value n k (.returned v)) (d : Datum) :
    (session.build d).2.Keeps inv ((session.build d).1 :: held) := by
  have hd := d.builds hreturned h.obeys.listed
  exact h.reaches rfl ⟨⟨Nat.le_refl _, hd.size_le⟩, h.obeys.lists hd.size_le hd.obeys,
    hd.values _ (List.mem_singleton_self _)⟩

theorem bind (h : session.Keeps inv held) (hv : v ∈ held) (s : ScopeId) (name : String) :
    (session.set s name v).Keeps inv held :=
  h.grows rfl ⟨Nat.le_of_eq (Scopes.size_set ..).symm, Nat.le_refl _⟩
    (h.obeys.set (h.admits v hv) s name)

theorem takeFaults (h : session.Keeps inv held)
    (hfault : ∀ {n k} {f : Fault}, inv.fault n k f → ∀ v ∈ f.values, inv.value n k v) :
    session.takeFaults.2.Keeps inv (session.faults.flatMap Fault.values ++ held) where
  builtins := h.builtins
  obeys := ⟨h.obeys.bound, h.obeys.outer, h.obeys.listed,
    fun f hf => absurd hf (Array.not_mem_empty f)⟩
  admits v hv := by
    rcases List.mem_append.1 hv with hv | hv
    · obtain ⟨fault, hmem, hv⟩ := List.mem_flatMap.1 hv
      exact hfault (h.obeys.noted fault (Array.mem_toList_iff.1 hmem)) v hv
    · exact h.admits v hv

end Session.Keeps

theorem Machine.grounded_newRoot : Machine.empty.newRoot.2.Grounded where
  outer := Machine.scoped_newRoot.outer
  bound s name v h := by
    match s with
    | 0 => cases h
    | _ + 1 => cases h
  listed a v h := by cases h
  noted fault h := absurd h (Array.not_mem_empty fault)

/-- An embedder that makes values and lets programs run does not get a session out of order. -/
theorem Session.Reachable.keeps {session : Session} {held : List Value}
    (h : session.Reachable held) : session.Keeps .grounded held := by
  induction h with
  | start options sink =>
    exact ⟨rfl, Machine.grounded_iff.1 Machine.grounded_newRoot, fun _ hv => nomatch hv⟩
  | evaluate _ fuel program hs hv ih => exact ih.evaluate hs hv
  | enclose _ hs ih =>
    exact ih.grows rfl ⟨by simp [Session.enclose, Machine.enclose], Nat.le_refl _⟩
      (ih.obeys.enclose hs fun _ _ hv => nomatch hv)
  | build _ d ih => exact ih.build Value.RefersBelow.returned d
  | gather _ hvs ih => exact ih.reaches rfl (ih.obeys.newList fun v hv => ih.admits v (hvs hv))
  | capture _ c hc ih =>
    exact ih.reaches rfl (ih.obeys.stays (Invariant.grounded.func hc))
  | @get _ _ _ s name v hv ih =>
    obtain ⟨t, -, ht⟩ := Scopes.exists_own?_of_get? hv
    exact ih.reaches rfl (ih.obeys.stays (ih.obeys.bound t name v ht))
  | set _ hv s name ih => exact ih.bind hv s name
  | setGlobal _ hv s name ih => exact ih.bind hv _ name
  | setOptions _ options ih => exact ih.grows rfl (.refl _) ih.obeys
  | takeFaults _ ih => exact ih.takeFaults fun h => h

theorem Session.Reachable.grounded {session : Session} {held : List Value}
    (h : session.Reachable held) : session.machine.Grounded :=
  Machine.grounded_iff.2 h.keeps.obeys

theorem Session.Reachable.held_refers {session : Session} {held : List Value}
    (h : session.Reachable held) : ∀ v ∈ held,
      v.RefersBelow session.machine.scopes.size session.machine.lists.size :=
  h.keeps.admits

end Scriptlet
