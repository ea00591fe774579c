import Mathlib.Data.Nat.Basic
import Scriptlet.Proofs.Coupling
import Scriptlet.Proofs.Frame
import Scriptlet.Proofs.Scoping

/-!
# Names that mean nothing

A name that means nothing is nil. The options say whether reading it also binds it to nil. That
happens in an outermost scope, which is asked last and did not bind the name, so what the name means
stays the same; and a `var` out there overwrites the binding. So a run that binds such names and one
that does not stay side by side: they differ in these bindings and in the notes on such names.
-/

namespace Scriptlet

/-- The faults of a list without some of those about names that mean nothing. -/
inductive Fault.Thinned : List Fault → List Fault → Prop
  | nil : Thinned [] []
  | keep (fault : Fault) {faults plain : List Fault} (h : Thinned faults plain) :
      Thinned (fault :: faults) (fault :: plain)
  | drop (name : String) {faults plain : List Fault} (h : Thinned faults plain) :
      Thinned faults (.unbound name :: plain)

/-- The same scopes, but that outermost ones bind more names to nil. -/
structure Scopes.Vivified (scopes plain : Scopes) : Prop where
  size_eq : scopes.size = plain.size
  outer?_eq : ∀ s, scopes.outer? s = plain.outer? s
  own? : ∀ s name, scopes.own? s name = plain.own? s name ∨
    plain.outer? s = none ∧ plain.own? s name = none ∧ scopes.own? s name = some .nil

/-- No built-in function can tell whether a name is bound to nil in an outermost scope or not at all.
One that looks names up in scopes could. -/
def Builtins.DisregardUnset (builtins : Builtins) : Prop :=
  ∀ b ∈ builtins.table, b.BlindTo Scopes.Vivified

theorem Builtins.standard_disregardUnset : Builtins.standard.DisregardUnset :=
  fun b hb => (standard_scopeless b hb).blindTo _

/-- The same state, but for names bound to nil and notes on unset names. -/
structure Machine.Vivified (m plain : Machine) : Prop where
  scopes : m.scopes.Vivified plain.scopes
  lists_eq : m.lists = plain.lists
  console_eq : m.console = plain.console
  faults : Fault.Thinned m.faults.toList plain.faults.toList

namespace Fault.Thinned

variable {faults plain : List Fault}

theorem refl : ∀ faults : List Fault, Thinned faults faults
  | [] => .nil
  | fault :: faults => .keep fault (refl faults)

theorem append {more more' : List Fault} (h : Thinned faults plain) (hmore : Thinned more more') :
    Thinned (faults ++ more) (plain ++ more') := by
  induction h with
  | nil => exact hmore
  | keep fault _ ih => exact .keep fault ih
  | drop name _ ih => exact .drop name ih

end Fault.Thinned

namespace Scopes

variable {scopes plain : Scopes} {s : ScopeId} {name : String}

theorem Vivified.refl (scopes : Scopes) : scopes.Vivified scopes :=
  ⟨rfl, fun _ => rfl, fun _ _ => .inl rfl⟩

theorem Vivified.chain_eq (h : scopes.Vivified plain) (s : ScopeId) :
    scopes.chain s = plain.chain s :=
  chain_congr h.size_eq h.outer?_eq s

theorem Vivified.root_eq (h : scopes.Vivified plain) (s : ScopeId) :
    scopes.root s = plain.root s := by
  rw [root, root, h.chain_eq]

/-- A name means what it means without such bindings, or nil instead of nothing: no scope is asked
after the one that binds it to nil. -/
theorem Vivified.get? (h : scopes.Vivified plain) {l : List ScopeId} (hl : scopes.Path s l)
    (name : String) : scopes.get? s name = plain.get? s name ∨
      plain.get? s name = none ∧ scopes.get? s name = some .nil := by
  rw [Scopes.get?, Scopes.get?, ← h.chain_eq, hl.chain_eq]
  induction hl with
  | @root s hs ho =>
    -- only here may there be one more binding, and no scope is left to ask
    simp only [List.findSome?_cons, List.findSome?_nil]
    rcases h.own? s name with heq | ⟨-, hplain, hown⟩
    · rw [heq]
      exact .inl rfl
    · rw [hplain, hown]
      exact .inr ⟨rfl, rfl⟩
  | @step s o l ho hp ih =>
    simp only [List.findSome?_cons]
    rcases h.own? s name with heq | ⟨hroot, -, -⟩
    · rw [heq]
      cases plain.own? s name with
      | some v => exact .inl rfl
      | none => exact ih
    · rw [← h.outer?_eq, ho] at hroot
      cases hroot

theorem Vivified.set (h : scopes.Vivified plain) (s : ScopeId) (name : String) (v : Value) :
    (scopes.set s name v).Vivified (plain.set s name v) where
  size_eq := by simpa using h.size_eq
  outer?_eq t := by simpa using h.outer?_eq t
  own? t other := by
    rw [own?_set, own?_set, outer?_set, h.size_eq]
    split
    · -- whatever the name was bound to, it is overwritten in both
      exact .inl rfl
    · exact h.own? t other

theorem Vivified.setGlobal (h : scopes.Vivified plain)
    (hroot : scopes.outer? (scopes.root s) = none) (hname : plain.get? s name = none) :
    (scopes.setGlobal s name .nil).Vivified plain where
  size_eq := by simpa using h.size_eq
  outer?_eq t := by simpa [Scopes.setGlobal] using h.outer?_eq t
  own? t other := by
    rw [Scopes.setGlobal, own?_set]
    split
    next heq =>
      obtain ⟨rfl, -, rfl⟩ := heq
      rw [← h.outer?_eq, h.root_eq]
      exact .inr ⟨h.root_eq s ▸ hroot, own?_root_eq_none hname, rfl⟩
    next => exact h.own? t other

theorem Vivified.add (h : scopes.Vivified plain) (o : ScopeId) {bindings bindings' : Bindings}
    (hbindings : ∀ name, bindings.lookup name = bindings'.lookup name) :
    (scopes.add ⟨some o, bindings⟩).Vivified (plain.add ⟨some o, bindings'⟩) where
  size_eq := by simpa using h.size_eq
  outer?_eq t := by rw [outer?_add, outer?_add, h.size_eq, h.outer?_eq]
  own? t name := by
    rw [own?_add, own?_add, outer?_add, h.size_eq]
    split
    · exact .inl (hbindings name)
    · exact h.own? t name

end Scopes

/-! ## Evaluation -/

def Context.withUnset (ctx : Context) (unset : UnsetNames) : Context :=
  { ctx with options := { ctx.options with unsetNames := unset } }

theorem Context.resolve_size (ctx : Context) (name : String) (s : ScopeId) (m : Machine) :
    (ctx.resolve name s m).2.scopes.size = m.scopes.size := by
  unfold Context.resolve
  split
  · rfl
  · split
    · rfl
    · dsimp only
      split
      · exact Scopes.size_setGlobal ..
      · rfl

def SameBelow (n : Nat) (s t : ScopeId) : Prop :=
  s = t ∧ s < n

theorem Value.alike_sameBelow_iff {n : Nat} {v w : Value} :
    v.Alike (SameBelow n) w ↔ v = w ∧ v.ScopesBelow n := by
  constructor
  · intro h
    induction h with
    | atom h => exact ⟨rfl, .of_isAtom h⟩
    | list a => exact ⟨rfl, trivial⟩
    | func h label params body =>
      obtain ⟨rfl, hs⟩ := h
      exact ⟨rfl, hs⟩
    | returned _ ih =>
      obtain ⟨rfl, hv⟩ := ih
      exact ⟨rfl, hv⟩
  · rintro ⟨rfl, h⟩
    exact h.alike fun s hs => ⟨rfl, hs⟩

theorem Value.forall₂_alike_sameBelow_iff {n : Nat} {vs ws : List Value} :
    List.Forall₂ (Value.Alike (SameBelow n)) vs ws ↔ vs = ws ∧ ∀ v ∈ vs, v.ScopesBelow n := by
  have halike : Value.Alike (SameBelow n) = fun v w => v.ScopesBelow n ∧ v = w := by
    funext v w
    exact propext (alike_sameBelow_iff.trans and_comm)
  rw [halike, List.forall₂_and_left, List.forall₂_eq_eq_eq]
  exact and_comm

theorem Fault.Alike.eq {n : Nat} {fault fault' : Fault} (h : fault.Alike (SameBelow n) fault') :
    fault = fault' := by
  cases h with
  | plain => rfl
  | infixOperands op hl hr =>
    rw [(Value.alike_sameBelow_iff.1 hl).1, (Value.alike_sameBelow_iff.1 hr).1]
  | prefixOperand _ h => rw [(Value.alike_sameBelow_iff.1 h).1]
  | notAFunction h => rw [(Value.alike_sameBelow_iff.1 h).1]
  | argument _ h => rw [(Value.alike_sameBelow_iff.1 h).1]
  | indexTarget h => rw [(Value.alike_sameBelow_iff.1 h).1]
  | indexOperand h => rw [(Value.alike_sameBelow_iff.1 h).1]
  | indexRange h _ => rw [(Value.alike_sameBelow_iff.1 h).1]

theorem Bindings.Alike.lookup_eq {n : Nat} {bindings bindings' : Bindings}
    (h : bindings.Alike (SameBelow n) bindings') (name : String) :
    bindings.lookup name = bindings'.lookup name ∧
      ∀ v, bindings.lookup name = some v → v.ScopesBelow n := by
  have hname := h name
  generalize bindings.lookup name = o, bindings'.lookup name = o' at hname ⊢
  cases hname with
  | none => exact ⟨rfl, fun v hv => by cases hv⟩
  | some hv =>
    obtain ⟨rfl, hbelow⟩ := Value.alike_sameBelow_iff.1 hv
    exact ⟨rfl, fun v hv => by cases hv; exact hbelow⟩

/-- A run that binds unset names beside one that does not. Worlds are numbers of scopes. -/
def Coupling.vivifying : Coupling Nat where
  state n m plain := m.scopes.size = n ∧ m.Scoped ∧ m.Vivified plain
  scope := SameBelow
  home := SameBelow

namespace Machine

variable {n : Nat} {m plain : Machine}

theorem Vivified.refl (m : Machine) : m.Vivified m :=
  ⟨.refl m.scopes, rfl, rfl, .refl _⟩

theorem Vivified.note (h : m.Vivified plain) (fault : Fault) :
    (m.note fault).Vivified (plain.note fault) where
  scopes := h.scopes
  lists_eq := h.lists_eq
  console_eq := h.console_eq
  faults := by simpa [Machine.note] using h.faults.append (.keep fault .nil)

theorem Vivified.settle (h : m.Vivified plain) (r : Except Fault Value) :
    (m.settle r).1 = (plain.settle r).1 ∧ (m.settle r).2.Vivified (plain.settle r).2 := by
  cases r with
  | ok v => exact ⟨rfl, h⟩
  | error fault => exact ⟨rfl, h.note fault⟩

theorem Vivified.callBuiltin (h : m.Vivified plain) {b : Builtin} (hb : b.BlindTo Scopes.Vivified)
    (sink : Sink) (args : List Value) :
    Option.Rel (fun r r' => r.1 = r'.1 ∧ r.2.Vivified r'.2) (m.callBuiltin sink b args)
      (plain.callBuiltin sink b args) := by
  have hcall := callBuiltin_of_blindTo hb h.scopes h.lists_eq h.console_eq sink args
  generalize m.callBuiltin sink b args = o, plain.callBuiltin sink b args = o' at hcall ⊢
  cases hcall with
  | none => exact .none
  | some hr =>
    obtain ⟨result, store, store', rfl, rfl, hscopes, hlists, hconsole⟩ := hr
    have hafter : (m.withStore store).Vivified (plain.withStore store') :=
      ⟨hscopes, hlists, hconsole, h.faults⟩
    exact .some (hafter.settle result)

/-- What a name means is the same with and without binding names that mean nothing, and so is what
names mean afterwards. -/
theorem Vivified.resolve (h : m.Vivified plain) (hm : m.Scoped) (ctx : Context) {s : ScopeId}
    (hs : s < m.scopes.size) (name : String) :
    ((ctx.withUnset .vivify).resolve name s m).1 = ((ctx.withUnset .nil).resolve name s plain).1 ∧
      ((ctx.withUnset .vivify).resolve name s m).2.Vivified
        ((ctx.withUnset .nil).resolve name s plain).2 := by
  obtain ⟨l, hl⟩ := hm.path hs
  by_cases hbuiltin : ctx.builtins.has name = true
  · have hbuiltin (unset : UnsetNames) : (ctx.withUnset unset).builtins.has name = true := hbuiltin
    rw [Context.resolve_of_builtin (hbuiltin _), Context.resolve_of_builtin (hbuiltin _)]
    exact ⟨rfl, h⟩
  have hscopes (unset : UnsetNames) : ¬(ctx.withUnset unset).builtins.has name = true := hbuiltin
  rcases h.scopes.get? hl name with heq | ⟨hnone, hnil⟩
  · cases hplain : plain.scopes.get? s name with
    | some v =>
      rw [Context.resolve_of_get? (hscopes _) (heq.trans hplain),
        Context.resolve_of_get? (hscopes _) hplain]
      exact ⟨rfl, h⟩
    | none =>
      rw [Context.resolve_of_vivify (hscopes _) (heq.trans hplain) rfl,
        Context.resolve_of_nil (hscopes _) hplain rfl]
      have hnoted := h.note (.unbound name)
      exact ⟨rfl, hnoted.scopes.setGlobal (hm.outer?_root hs) hplain, hnoted.lists_eq,
        hnoted.console_eq, hnoted.faults⟩
  · -- the name was bound to nil before, so only one of the runs notes it
    rw [Context.resolve_of_get? (hscopes _) hnil, Context.resolve_of_nil (hscopes _) hnone rfl]
    refine ⟨rfl, h.scopes, h.lists_eq, h.console_eq, ?_⟩
    simpa [Machine.note] using h.faults.append (.drop name .nil)

end Machine

namespace Coupling

theorem vivifying_enclose {n : Nat} {m plain : Machine} {s s' : ScopeId}
    {bindings bindings' : Bindings} (hm : vivifying.state n m plain)
    (hs : vivifying.scope n s s')
    (hbindings : Bindings.Alike (vivifying.scope n) bindings bindings') :
    ∃ k, n ≤ k ∧ vivifying.state k (m.enclose s bindings).2 (plain.enclose s' bindings').2 ∧
      vivifying.home k (m.enclose s bindings).1 (plain.enclose s' bindings').1 := by
  obtain ⟨rfl, hm, h⟩ := hm
  obtain ⟨rfl, hs⟩ := hs
  refine ⟨m.scopes.size + 1, Nat.le_succ _, ⟨by simp [Machine.enclose], ?_, ?_⟩,
    h.scopes.size_eq, Nat.lt_succ_self _⟩
  · exact Machine.scoped_iff.2 ((Machine.scoped_iff.1 hm).enclose hs fun name =>
      (hbindings.lookup_eq name).2)
  · exact ⟨h.scopes.add s fun name => (hbindings.lookup_eq name).1, h.lists_eq, h.console_eq,
      h.faults⟩

/-- Binding unset names makes no difference to any step. -/
theorem vivifying_sound {ctx : Context} (hb : ctx.builtins.Respect .scoped)
    (hblind : ctx.builtins.DisregardUnset) :
    vivifying.Sound (ctx.withUnset .vivify) (ctx.withUnset .nil) where
  arity_eq := rfl
  builtins_eq := rfl
  scope_mono hw hs := ⟨hs.1, Nat.lt_of_lt_of_le hs.2 hw⟩
  home_mono hw hs := ⟨hs.1, Nat.lt_of_lt_of_le hs.2 hw⟩
  scope_of_home hs := hs
  lists {n m plain} := by
    rintro ⟨rfl, hm, h⟩
    refine ⟨by rw [h.lists_eq], fun a => ?_⟩
    exact Value.forall₂_alike_sameBelow_iff.2 ⟨by rw [h.lists_eq], hm.listed a⟩
  note := by
    rintro n m plain fault fault' ⟨rfl, hm, h⟩ hfault
    obtain rfl := hfault.eq
    exact ⟨rfl, Machine.scoped_iff.2 ((Machine.scoped_iff.1 hm).note trivial), h.note fault⟩
  newList := by
    rintro n m plain vs vs' ⟨rfl, hm, h⟩ hvs
    obtain ⟨rfl, hbelow⟩ := Value.forall₂_alike_sameBelow_iff.1 hvs
    refine ⟨rfl, Machine.scoped_iff.2 ((Machine.scoped_iff.1 hm).newList hbelow).obeys, h.scopes, ?_,
      h.console_eq, h.faults⟩
    simp only [Machine.newList, h.lists_eq]
  bind := by
    rintro n m plain s _ v v' ⟨rfl, hm, h⟩ ⟨rfl, hs⟩ hv name
    obtain ⟨rfl, hbelow⟩ := Value.alike_sameBelow_iff.1 hv
    exact ⟨by simp [Machine.bind],
      Machine.scoped_iff.2 ((Machine.scoped_iff.1 hm).set hbelow s name),
      h.scopes.set s name v, h.lists_eq, h.console_eq, h.faults⟩
  enclose := vivifying_enclose
  enterBranch := by
    rintro n m plain s _ code ⟨rfl, hm, h⟩ ⟨rfl, hs⟩
    by_cases hown : ctx.ownScope code = true
    · have hown (unset : UnsetNames) : (ctx.withUnset unset).ownScope code = true := hown
      rw [Context.enterBranch_of_own (hown _), Context.enterBranch_of_own (hown _)]
      have hempty : Bindings.Alike (vivifying.scope m.scopes.size) [] [] := fun _ => .none
      obtain ⟨w₁, hw, hm₁, hhome⟩ := vivifying_enclose ⟨rfl, hm, h⟩ ⟨rfl, hs⟩ hempty
      exact ⟨w₁, hw, hm₁, hhome, fun _ => hhome⟩
    · have hown (unset : UnsetNames) : ¬(ctx.withUnset unset).ownScope code = true := hown
      rw [Context.enterBranch_of_not_own (hown _), Context.enterBranch_of_not_own (hown _)]
      exact ⟨m.scopes.size, Nat.le_refl _, ⟨rfl, hm, h⟩, ⟨rfl, hs⟩, fun _ => ⟨rfl, hs⟩⟩
  resolve := by
    rintro n m plain s _ name ⟨rfl, hm, h⟩ ⟨rfl, hs⟩
    obtain ⟨hv, h'⟩ := h.resolve hm ctx hs name
    have hreaches := (Machine.scoped_iff.1 hm).resolve (ctx.withUnset .vivify) name s
    have hsize := (ctx.withUnset .vivify).resolve_size name s m
    exact ⟨⟨hsize, Machine.scoped_iff.2 hreaches.obeys, h'⟩,
      Value.alike_sameBelow_iff.2 ⟨hv, hsize ▸ hreaches.admits⟩⟩
  callBuiltin := by
    rintro n m plain b args args' hmem ⟨rfl, hm, h⟩ hargs
    obtain ⟨rfl, hbelow⟩ := Value.forall₂_alike_sameBelow_iff.1 hargs
    have hcall := h.callBuiltin (hblind b hmem) ctx.sink args
    have hreaches := (Machine.scoped_iff.1 hm).callBuiltin (hb b hmem) ctx.sink hbelow
    change vivifying.Ends _ (m.callBuiltin ctx.sink b args) (plain.callBuiltin ctx.sink b args)
    generalize m.callBuiltin ctx.sink b args = o, plain.callBuiltin ctx.sink b args = o'
      at hcall hreaches ⊢
    cases hcall with
    | none => exact .none
    | @some r r' hr =>
      have hreaches := hreaches r.1 r.2 rfl
      exact .some ⟨r.2.scopes.size, hreaches.grown.scopes,
        ⟨rfl, Machine.scoped_iff.2 hreaches.obeys, hr.2⟩,
        Value.alike_sameBelow_iff.2 ⟨hr.1, hreaches.admits⟩⟩

end Coupling

end Scriptlet
