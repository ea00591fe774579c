import Scriptlet.Eval
import Scriptlet.Proofs.Invariants

/-!
# Keeping an invariant

What evaluation stores it has computed from what was stored before. So an invariant of what is
stored is true of everything that a run ever stores and comes to: it is carried through each part of
the evaluator, for tables of built-in functions that respect it. A value on its way out has the
property once it has arrived.
-/

namespace Scriptlet

/-! ## Equations of the evaluator -/

/-- The value of a first step and then those of further ones, up to one on its way out. -/
def Outcomes.cons (o : Outcome) (rest : Machine → Outcomes) : Outcomes :=
  match o with
  | none => none
  | some (.returned v, m) => some (.error (.returned v), m)
  | some (v, m) =>
    match rest m with
    | none => none
    | some (.error v, m) => some (.error v, m)
    | some (.ok vs, m) => some (.ok (v :: vs), m)

/-- A value that goes on is put in front of those that follow. -/
theorem Outcomes.cons_of_pass {v : Value} (hv : v.isReturned = false) (m : Machine)
    (rest : Machine → Outcomes) :
    Outcomes.cons (some (v, m)) rest = (rest m).map fun (r, m) => (r.map (v :: ·), m) := by
  cases v with
  | returned => cases hv
  | _ =>
    simp only [Outcomes.cons]
    rcases rest m with _ | ⟨_ | vs, m₁⟩ <;> rfl

/-- This and the three equations behind it say in terms of `Option.bind` how evaluation goes on. -/
theorem Outcome.andThen_eq_bind (o : Outcome) (next : Value → Machine → Outcome) :
    o.andThen next = o.bind fun r => if r.1.isReturned then some r else next r.1 r.2 := by
  rcases o with _ | ⟨v, m⟩
  · rfl
  · cases v <;> rfl

theorem Outcome.arrive_eq_bind (o : Outcome) :
    o.arrive = o.bind fun r => some (r.1.arrived, r.2) :=
  Option.map_eq_bind

theorem Outcomes.andThen_eq_bind (o : Outcomes) (next : List Value → Machine → Outcome) :
    o.andThen next = o.bind fun r =>
      match r.1 with
      | .error v => some (v, r.2)
      | .ok vs => next vs r.2 := by
  rcases o with _ | ⟨_ | _, _⟩ <;> rfl

theorem Outcomes.cons_eq_bind (o : Outcome) (rest : Machine → Outcomes) :
    Outcomes.cons o rest = o.bind fun r =>
      if r.1.isReturned then some (.error r.1, r.2)
      else (rest r.2).bind fun s => some (s.1.map (r.1 :: ·), s.2) := by
  rcases o with _ | ⟨v, m⟩
  · rfl
  · cases hv : v.isReturned with
    | false =>
      rw [Outcomes.cons_of_pass hv, Option.map_eq_bind, Option.bind_some, if_neg (by simp [hv])]
      rfl
    | true =>
      cases v with
      | returned v => rfl
      | _ => cases hv

theorem evalExprs_cons (ctx : Context) (fuel : Nat) (e : Expr Nat) (es : List (Expr Nat))
    (s : ScopeId) (m : Machine) :
    evalExprs ctx (fuel + 1) (e :: es) s m =
      .cons (evalExpr ctx fuel e s m) (evalExprs ctx fuel es s) := by
  rw [evalExprs]
  rfl

/-- Operators other than `and` and `or` evaluate both of their operands. -/
theorem evalExpr_infixOp {op : InfixOp} (hand : op ≠ .and) (hor : op ≠ .or) (ctx : Context)
    (fuel : Nat) (left right : Expr Nat) (s : ScopeId) (m : Machine) :
    evalExpr ctx (fuel + 1) (.infixOp op left right) s m =
      Outcome.andThen (evalExpr ctx fuel left s m) fun l m =>
      Outcome.andThen (evalExpr ctx fuel right s m) fun r m =>
      some (m.settle (op.apply m.lists l r)) := by
  cases op with
  | and => exact absurd rfl hand
  | or => exact absurd rfl hor
  | _ => rw [evalExpr] <;> intro h <;> cases h

namespace Context

variable {ctx : Context} {name : String} {s : ScopeId} {m : Machine}

theorem resolve_of_builtin (h : ctx.builtins.has name = true) :
    ctx.resolve name s m = (.builtin name, m) :=
  if_pos h

theorem resolve_of_get? {v : Value} (h : ¬ctx.builtins.has name = true)
    (hv : m.scopes.get? s name = some v) : ctx.resolve name s m = (v, m) := by
  rw [resolve, if_neg h, hv]

theorem resolve_of_vivify (h : ¬ctx.builtins.has name = true)
    (hnone : m.scopes.get? s name = none) (hunset : ctx.options.unsetNames = .vivify) :
    ctx.resolve name s m =
      (.nil, { m.note (.unbound name) with scopes := m.scopes.setGlobal s name .nil }) := by
  simp only [resolve, if_neg h, hnone, hunset, Machine.note]

theorem resolve_of_nil (h : ¬ctx.builtins.has name = true)
    (hnone : m.scopes.get? s name = none) (hunset : ctx.options.unsetNames = .nil) :
    ctx.resolve name s m = (.nil, m.note (.unbound name)) := by
  simp only [resolve, if_neg h, hnone, hunset]

theorem enterBranch_of_own {code : Code} (h : ctx.ownScope code = true) :
    ctx.enterBranch code s m = m.enclose s [] :=
  if_pos h

theorem enterBranch_of_not_own {code : Code} (h : ¬ctx.ownScope code = true) :
    ctx.enterBranch code s m = (s, m) :=
  if_neg h

end Context

def Context.refusal? (ctx : Context) (c : Closure) (got : Nat) : Option Fault :=
  match ctx.options.arity with
  | .strict => c.arityFault? got
  | .lenient => none

/-- The state in which the body of a function starts, with its scope. A wrong number of arguments
has been noted. -/
def Machine.enter (m : Machine) (c : Closure) (args : List Value) : ScopeId × Machine :=
  (((c.arityFault? args.length).map m.note).getD m).enclose c.scope
    (Bindings.bindParams [] c.params args)

theorem applyValue_func (ctx : Context) (fuel : Nat) (c : Closure) (args : List Value)
    (m : Machine) :
    applyValue ctx (fuel + 1) (.func c) args m =
      match ctx.refusal? c args.length with
      | some fault => some (m.settle (.error fault))
      | none => (evalBlock ctx fuel .nil c.body (m.enter c args).1 (m.enter c args).2).arrive := by
  rw [applyValue, Context.refusal?, Machine.enter]
  cases ctx.options.arity with
  | lenient => rfl
  | strict => cases c.arityFault? args.length <;> rfl

theorem evalBranch_eq_bind (ctx : Context) (fuel : Nat) (code : Code) (s : ScopeId) (m : Machine) :
    evalBranch ctx (fuel + 1) code s m =
      (some (ctx.enterBranch code s m)).bind fun r => evalBlock ctx fuel .nil code r.1 r.2 := by
  rw [evalBranch]
  rfl

/-! ## Steps of a run -/

def Machine.Admits (inv : Invariant) (m : Machine) (v : Value) : Prop :=
  inv.value m.scopes.size m.lists.size v

structure Machine.Obeys (inv : Invariant) (m : Machine) : Prop where
  bound : ∀ s name v, m.scopes.own? s name = some v → m.Admits inv v
  outer : ∀ s o, m.scopes.outer? s = some o → inv.outer s o
  listed : m.lists.Obeys inv m.scopes.size
  noted : ∀ f ∈ m.faults, inv.fault m.scopes.size m.lists.size f

/-- A call binds its arguments, and parameters without one to nil. -/
theorem Bindings.lookup_bindParams {P : Value → Prop} (hnil : P .nil) :
    ∀ (params : List String) (args : List Value) (bindings : Bindings), (∀ v ∈ args, P v) →
      (∀ name v, bindings.lookup name = some v → P v) →
        ∀ name v, (bindings.bindParams params args).lookup name = some v → P v
  | [], _, _, _, h => h
  | param :: params, args, bindings, hargs, h => by
    rw [Bindings.bindParams]
    refine lookup_bindParams hnil params _ _ (fun v hv => hargs v (List.mem_of_mem_tail hv)) ?_
    intro name v hv
    rw [Bindings.lookup_bind] at hv
    split at hv
    · cases hv
      cases args with
      | nil => exact hnil
      | cons arg args => exact hargs arg List.mem_cons_self
    · exact h name v hv

structure Machine.Grown (before after : Machine) : Prop where
  scopes : before.scopes.size ≤ after.scopes.size
  lists : before.lists.size ≤ after.lists.size

/-- A value and the state that it was reached in, from a state before. -/
structure Machine.Reaches (inv : Invariant) (before : Machine) (v : Value) (after : Machine) :
    Prop where
  grown : before.Grown after
  obeys : after.Obeys inv
  admits : after.Admits inv v

namespace Machine

variable {inv : Invariant} {m m₁ m₂ : Machine} {v : Value}

theorem Grown.refl (m : Machine) : m.Grown m :=
  ⟨Nat.le_refl _, Nat.le_refl _⟩

theorem Grown.trans (h : m.Grown m₁) (h' : m₁.Grown m₂) : m.Grown m₂ :=
  ⟨Nat.le_trans h.scopes h'.scopes, Nat.le_trans h.lists h'.lists⟩

theorem Admits.mono (h : m.Admits inv v) (hm : m.Grown m₁) : m₁.Admits inv v :=
  inv.value_mono hm.scopes hm.lists h

theorem admits_atom (hv : v.isAtom = true) : m.Admits inv v :=
  inv.atom hv

theorem Reaches.after (h : m₁.Reaches inv v m₂) (hm : m.Grown m₁) : m.Reaches inv v m₂ :=
  ⟨hm.trans h.grown, h.obeys, h.admits⟩

theorem Reaches.arrived (h : m.Reaches inv v m₁) : m.Reaches inv v.arrived m₁ :=
  ⟨h.grown, h.obeys, inv.arrived h.admits⟩

theorem Obeys.stays (h : m.Obeys inv) (hv : m.Admits inv v) : m.Reaches inv v m :=
  ⟨.refl m, h, hv⟩

theorem Obeys.note (h : m.Obeys inv) {fault : Fault}
    (hfault : inv.fault m.scopes.size m.lists.size fault) : (m.note fault).Obeys inv where
  bound := h.bound
  outer := h.outer
  listed := h.listed
  noted f hf := by
    rcases Array.mem_push.1 hf with hf | rfl
    · exact h.noted f hf
    · exact hfault

theorem Obeys.settle (h : m.Obeys inv) {r : Except Fault Value}
    (hr : Answers r (m.Admits inv) (inv.fault m.scopes.size m.lists.size)) :
    m.Reaches inv (m.settle r).1 (m.settle r).2 := by
  cases r with
  | ok v => exact h.stays hr
  | error fault => exact ⟨⟨Nat.le_refl _, Nat.le_refl _⟩, h.note hr, admits_atom rfl⟩

theorem Obeys.prefixOp (h : m.Obeys inv) (hv : m.Admits inv v) (op : PrefixOp) :
    m.Reaches inv (m.settle (op.apply m.lists v)).1 (m.settle (op.apply m.lists v)).2 :=
  h.settle ((op.apply_spec m.lists v).mono (fun _ => inv.atom) fun _ hfault =>
    inv.fault_of_values fun w hw => hfault w hw ▸ hv)

theorem Obeys.infixOp {w : Value} (h : m.Obeys inv) (hv : m.Admits inv v) (hw : m.Admits inv w)
    (op : InfixOp) :
    m.Reaches inv (m.settle (op.apply m.lists v w)).1 (m.settle (op.apply m.lists v w)).2 := by
  refine h.settle ((op.apply_spec m.lists v w).mono (fun _ => inv.atom) fun fault hfault =>
    inv.fault_of_values fun u hu => ?_)
  rcases hfault u hu with rfl | rfl
  · exact hv
  · exact hw

theorem Obeys.index {w : Value} (h : m.Obeys inv) (hv : m.Admits inv v) (hw : m.Admits inv w) :
    m.Reaches inv (m.settle (v.index m.lists w)).1 (m.settle (v.index m.lists w)).2 := by
  refine h.settle ((v.index_spec m.lists w).mono ?_ fun fault hfault =>
    inv.fault_of_values fun u hu => ?_)
  · rintro u ⟨a, -, hu⟩
    exact h.listed.admits hu
  · rcases hfault u hu with rfl | rfl
    · exact hv
    · exact hw

theorem Obeys.refuse (h : m.Obeys inv) (hv : m.Admits inv v) :
    m.Reaches inv (m.settle (.error (.notAFunction v))).1 (m.settle (.error (.notAFunction v))).2 :=
  h.settle (inv.fault_of_values fun _ hw => List.mem_singleton.1 hw ▸ hv)

theorem arityFault_allowed {c : Closure} {got : Nat} {fault : Fault}
    (hfault : c.arityFault? got = some fault) : inv.fault m.scopes.size m.lists.size fault := by
  rw [Closure.arityFault?] at hfault
  split at hfault
  · cases hfault
  · cases hfault
    exact Builtin.fault_of_values_eq_nil rfl

theorem Obeys.refuseCall (h : m.Obeys inv) {ctx : Context} {c : Closure} {got : Nat} {fault : Fault}
    (hfault : ctx.refusal? c got = some fault) :
    m.Reaches inv (m.settle (.error fault)).1 (m.settle (.error fault)).2 := by
  rw [Context.refusal?] at hfault
  split at hfault
  · exact h.settle (arityFault_allowed hfault)
  · cases hfault

theorem Obeys.set (h : m.Obeys inv) (hv : m.Admits inv v) (s : ScopeId) (name : String) :
    Machine.Obeys inv { m with scopes := m.scopes.set s name v } where
  bound t other w hw := by
    simp only [Admits, Scopes.size_set]
    rw [Scopes.own?_set] at hw
    split at hw
    · cases hw
      exact hv
    · exact h.bound t other w hw
  outer t o ho := h.outer t o (by simpa using ho)
  listed := by simpa using h.listed
  noted := by simpa using h.noted

theorem Obeys.newList (h : m.Obeys inv) {vs : List Value} (hvs : ∀ v ∈ vs, m.Admits inv v) :
    m.Reaches inv (m.newList vs).1 (m.newList vs).2 where
  grown := ⟨Nat.le_refl _, by simp [Machine.newList]⟩
  obeys := {
    bound := fun s name v hv => (h.bound s name v hv).mono ⟨Nat.le_refl _, by simp [Machine.newList]⟩
    outer := h.outer
    listed := h.listed.alloc hvs
    noted := fun f hf => inv.fault_mono (Nat.le_refl _) (by simp [Machine.newList]) (h.noted f hf) }
  admits := inv.list h.listed.floor_le (by simp [Machine.newList])

theorem Obeys.enclose (h : m.Obeys inv) {s : ScopeId} {bindings : Bindings}
    (hs : inv.outer m.scopes.size s)
    (hbindings : ∀ name v, bindings.lookup name = some v → m.Admits inv v) :
    (m.enclose s bindings).2.Obeys inv where
  bound t name v hv := by
    have hgrown : m.Grown (m.enclose s bindings).2 := ⟨by simp [Machine.enclose], Nat.le_refl _⟩
    rw [Machine.enclose, Scopes.own?_add] at hv
    split at hv
    · exact (hbindings name v hv).mono hgrown
    · exact (h.bound t name v hv).mono hgrown
  outer t o ho := by
    rw [Machine.enclose, Scopes.outer?_add] at ho
    split at ho
    next ht =>
      cases ho
      exact ht ▸ hs
    next => exact h.outer t o ho
  listed := h.listed.mono (by simp [Machine.enclose])
  noted f hf := inv.fault_mono (by simp [Machine.enclose]) (Nat.le_refl _) (h.noted f hf)

/-- Where the body of a function runs. -/
theorem Obeys.enter (h : m.Obeys inv) {c : Closure} (hc : m.Admits inv (.func c))
    {args : List Value} (hargs : ∀ v ∈ args, m.Admits inv v) :
    let (s, inner) := m.enter c args
    m.Grown inner ∧ inner.Obeys inv ∧ s < inner.scopes.size := by
  have hnoted : (((c.arityFault? args.length).map m.note).getD m).Obeys inv ∧
      m.Grown (((c.arityFault? args.length).map m.note).getD m) := by
    cases hfault : c.arityFault? args.length with
    | none => exact ⟨h, .refl m⟩
    | some fault => exact ⟨h.note (arityFault_allowed hfault), Nat.le_refl _, Nat.le_refl _⟩
  obtain ⟨hobeys, hgrown⟩ := hnoted
  refine ⟨hgrown.trans ⟨by simp, Nat.le_refl _⟩, ?_, by simp⟩
  exact hobeys.enclose (inv.outer_of_func (hc.mono hgrown))
    (Bindings.lookup_bindParams (admits_atom rfl) c.params args []
      (fun v hv => (hargs v hv).mono hgrown) fun name v hv => by cases hv)

/-- Where a branch runs. -/
theorem Obeys.enterBranch (h : m.Obeys inv) (ctx : Context) (code : Code) {s : ScopeId}
    (hs : s < m.scopes.size) :
    let (s, inner) := ctx.enterBranch code s m
    m.Grown inner ∧ inner.Obeys inv ∧ s < inner.scopes.size := by
  rw [Context.enterBranch]
  by_cases hown : ctx.ownScope code = true
  · rw [if_pos hown]
    refine ⟨⟨by simp, Nat.le_refl _⟩, ?_, by simp⟩
    exact h.enclose (inv.outer_of_lt hs) fun name v hv => by cases hv
  · rw [if_neg hown]
    exact ⟨.refl m, h, hs⟩

theorem Obeys.resolve (h : m.Obeys inv) (ctx : Context) (name : String) (s : ScopeId) :
    m.Reaches inv (ctx.resolve name s m).1 (ctx.resolve name s m).2 := by
  have noted : (m.note (.unbound name)).Obeys inv :=
    h.note (Builtin.fault_of_values_eq_nil rfl)
  unfold Context.resolve
  split
  · exact h.stays (admits_atom rfl)
  · split
    next v hv =>
      obtain ⟨t, -, ht⟩ := Scopes.exists_own?_of_get? hv
      exact h.stays (h.bound t name v ht)
    next =>
      dsimp only
      split
      · exact ⟨⟨by simp [Machine.note], Nat.le_refl _⟩,
          noted.set (admits_atom rfl) _ name, admits_atom rfl⟩
      · exact ⟨⟨Nat.le_refl _, Nat.le_refl _⟩, noted, admits_atom rfl⟩

end Machine

/-! ## The evaluator, part by part -/

def Outcome.Yields (o : Outcome) (P : Value → Machine → Prop) : Prop :=
  ∀ v m, o = some (v, m) → P v m

theorem Machine.Obeys.callBuiltin {inv : Invariant} {m : Machine} (h : m.Obeys inv) {b : Builtin}
    (hb : b.Respects inv) (sink : Sink) {args : List Value} (hargs : ∀ v ∈ args, m.Admits inv v) :
    Outcome.Yields (m.callBuiltin sink b args) (m.Reaches inv) := by
  intro v m' hv
  obtain ⟨result, store, haction, hsettle⟩ := callBuiltin_eq_some_iff.1 hv
  have hyields := hb sink args m.store ⟨h.bound, h.outer, h.listed⟩ hargs result store haction
  have hgrown : m.Grown (m.withStore store) := ⟨hyields.scopes, hyields.lists⟩
  have hobeys : (m.withStore store).Obeys inv := {
    bound := hyields.obeys.bound
    outer := hyields.obeys.outer
    listed := hyields.obeys.listed
    noted := fun f hf => inv.fault_mono hgrown.scopes hgrown.lists (h.noted f hf) }
  have hreaches := (hobeys.settle hyields.answers).after hgrown
  rwa [hsettle] at hreaches

/-- A step from a state keeps an invariant. Its value has it once it has arrived. -/
def Outcome.Upholds (inv : Invariant) (m : Machine) (o : Outcome) : Prop :=
  o.Yields fun v m' => m.Reaches inv v.arrived m'

def Outcomes.Upholds (inv : Invariant) (m : Machine) (o : Outcomes) : Prop :=
  ∀ r m', o = some (r, m') →
    match r with
    | .ok vs => m.Grown m' ∧ m'.Obeys inv ∧ ∀ v ∈ vs, m'.Admits inv v
    | .error v => m.Reaches inv v.arrived m'

section

variable {inv : Invariant} {m m₁ : Machine}

theorem Outcome.yields_none {P : Value → Machine → Prop} : Outcome.Yields none P := by
  intro v m h
  cases h

theorem Outcome.yields_some {P : Value → Machine → Prop} {r : Value × Machine} (h : P r.1 r.2) :
    Outcome.Yields (some r) P := by
  intro v m hr
  cases hr
  exact h

theorem Outcome.Yields.mono {P Q : Value → Machine → Prop} {o : Outcome} (h : o.Yields P)
    (hPQ : ∀ v m, P v m → Q v m) : o.Yields Q :=
  fun v m hv => hPQ v m (h v m hv)

theorem Outcome.upholds_some {r : Value × Machine} (h : m.Reaches inv r.1 r.2) :
    Outcome.Upholds inv m (some r) :=
  Outcome.yields_some h.arrived

theorem Outcome.Upholds.after {o : Outcome} (h : o.Upholds inv m₁) (hm : m.Grown m₁) :
    o.Upholds inv m :=
  h.mono fun _ _ hv => hv.after hm

theorem Outcome.Upholds.andThen {o : Outcome} {next : Value → Machine → Outcome}
    (ho : o.Upholds inv m) (hnext : ∀ v m₁, m.Grown m₁ → m₁.Obeys inv → m₁.Admits inv v →
      (next v m₁).Upholds inv m₁) : (o.andThen next).Upholds inv m := by
  intro v m' h
  rcases o with _ | ⟨w, m₁⟩
  · cases h
  have hw := ho w m₁ rfl
  cases w with
  | returned u =>
    cases h
    exact hw
  | _ => exact (hnext _ m₁ hw.grown hw.obeys hw.admits).after hw.grown v m' h

theorem Outcome.Upholds.arrive {o : Outcome} (ho : o.Upholds inv m) :
    o.arrive.Yields (m.Reaches inv) := by
  intro v m' h
  obtain ⟨⟨w, m₁⟩, hw, hv⟩ := Option.map_eq_some_iff.1 h
  cases hv
  exact ho w _ hw

theorem Outcomes.upholds_none : Outcomes.Upholds inv m none := by
  intro r m' h
  cases h

theorem Outcomes.upholds_nil (h : m.Obeys inv) : Outcomes.Upholds inv m (some (.ok [], m)) := by
  intro r m' hr
  cases hr
  exact ⟨.refl m, h, fun v hv => absurd hv List.not_mem_nil⟩

theorem Outcome.Upholds.cons {o : Outcome} {rest : Machine → Outcomes} (ho : o.Upholds inv m)
    (hrest : ∀ m₁, m.Grown m₁ → m₁.Obeys inv → (rest m₁).Upholds inv m₁) :
    (Outcomes.cons o rest).Upholds inv m := by
  intro r m' h
  rw [Outcomes.cons.eq_def] at h
  split at h
  · cases h
  · cases h
    exact ho _ _ rfl
  next v m₁ hpass =>
    obtain ⟨hgrown, hobeys, hv⟩ := ho v m₁ rfl
    have hrest := hrest m₁ hgrown hobeys
    split at h
    · cases h
    next hvs =>
      cases h
      exact (hrest _ _ hvs).after hgrown
    next vs m₂ hvs =>
      cases h
      obtain ⟨hgrown', hobeys', hadmits⟩ := hrest _ _ hvs
      have hv : m₁.Admits inv v := by
        cases v with
        | returned u => exact absurd rfl (hpass u)
        | _ => exact hv
      exact ⟨hgrown.trans hgrown', hobeys', List.forall_mem_cons.2 ⟨hv.mono hgrown', hadmits⟩⟩

theorem Outcomes.Upholds.andThen {o : Outcomes} {next : List Value → Machine → Outcome}
    (ho : o.Upholds inv m) (hnext : ∀ vs m₁, m.Grown m₁ → m₁.Obeys inv →
      (∀ v ∈ vs, m₁.Admits inv v) → (next vs m₁).Upholds inv m₁) :
    (o.andThen next).Upholds inv m := by
  intro v m' h
  rcases o with _ | ⟨_ | vs, m₁⟩
  · cases h
  · cases h
    exact ho _ _ rfl
  · obtain ⟨hgrown, hobeys, hvs⟩ := ho _ m₁ rfl
    exact (hnext vs m₁ hgrown hobeys hvs).after hgrown v m' h

end

section

variable {inv : Invariant} {ctx : Context}

mutual

/-- What an expression comes to has a property that everything stored before has. -/
theorem evalExpr_upholds (hb : ctx.builtins.Respect inv) : ∀ fuel e s m, m.Obeys inv →
    s < m.scopes.size → (evalExpr ctx fuel e s m).Upholds inv m
  | 0, _, _, _, _, _ => by
    rw [evalExpr]
    exact Outcome.yields_none
  | fuel + 1, e, s, m, h, hs => by
    have expr := evalExpr_upholds hb fuel
    have exprs := evalExprs_upholds hb fuel
    have branch := evalBranch_upholds hb fuel
    rw [evalExpr.eq_def]
    dsimp only
    split
    · exact Outcome.upholds_some (h.resolve ctx _ s)
    · exact Outcome.upholds_some (h.stays (Machine.admits_atom rfl))
    · exact Outcome.upholds_some (h.stays (Machine.admits_atom rfl))
    · exact Outcome.upholds_some (h.stays (Machine.admits_atom rfl))
    · exact Outcome.upholds_some (h.stays (Machine.admits_atom rfl))
    · exact (exprs _ s m h hs).andThen fun vs m₁ _ h₁ hvs => Outcome.upholds_some (h₁.newList hvs)
    next op operand =>
      exact (expr operand s m h hs).andThen fun v m₁ _ h₁ hv =>
        Outcome.upholds_some (h₁.prefixOp hv op)
    next left right =>
      refine (expr left s m h hs).andThen fun l m₁ hm₁ h₁ _ => ?_
      split
      · refine (expr right s m₁ h₁ (Nat.lt_of_lt_of_le hs hm₁.scopes)).andThen fun r m₂ _ h₂ _ => ?_
        exact Outcome.upholds_some (h₂.stays (Machine.admits_atom rfl))
      · exact Outcome.upholds_some (h₁.stays (Machine.admits_atom rfl))
    next left right =>
      refine (expr left s m h hs).andThen fun l m₁ hm₁ h₁ _ => ?_
      split
      · exact Outcome.upholds_some (h₁.stays (Machine.admits_atom rfl))
      · refine (expr right s m₁ h₁ (Nat.lt_of_lt_of_le hs hm₁.scopes)).andThen fun r m₂ _ h₂ _ => ?_
        exact Outcome.upholds_some (h₂.stays (Machine.admits_atom rfl))
    next op left right _ _ =>
      refine (expr left s m h hs).andThen fun l m₁ hm₁ h₁ hl => ?_
      refine (expr right s m₁ h₁ (Nat.lt_of_lt_of_le hs hm₁.scopes)).andThen fun r m₂ hm₂ h₂ hr => ?_
      exact Outcome.upholds_some (h₂.infixOp (hl.mono hm₂) hr op)
    next target position =>
      refine (expr target s m h hs).andThen fun t m₁ hm₁ h₁ ht => ?_
      refine (expr position s m₁ h₁ (Nat.lt_of_lt_of_le hs hm₁.scopes)).andThen
        fun p m₂ hm₂ h₂ hp => ?_
      exact Outcome.upholds_some (h₂.index (ht.mono hm₂) hp)
    next condition consequence alternative =>
      refine (expr condition s m h hs).andThen fun c m₁ hm₁ h₁ _ => ?_
      have hs₁ := Nat.lt_of_lt_of_le hs hm₁.scopes
      split
      · exact branch _ s m₁ h₁ hs₁
      · split
        · exact branch _ s m₁ h₁ hs₁
        · exact Outcome.upholds_some (h₁.stays (Machine.admits_atom rfl))
    · exact Outcome.upholds_some (h.stays (inv.func hs))
    next callee arguments =>
      refine (expr callee s m h hs).andThen fun f m₁ hm₁ h₁ hf => ?_
      refine (exprs arguments s m₁ h₁ (Nat.lt_of_lt_of_le hs hm₁.scopes)).andThen
        fun args m₂ hm₂ h₂ hargs => ?_
      exact (applyValue_reaches hb fuel f args m₂ h₂ (hf.mono hm₂) hargs).mono
        fun _ _ hv => hv.arrived
termination_by structural fuel => fuel

theorem evalExprs_upholds (hb : ctx.builtins.Respect inv) : ∀ fuel es s m, m.Obeys inv →
    s < m.scopes.size → (evalExprs ctx fuel es s m).Upholds inv m
  | 0, _, _, _, _, _ => by
    rw [evalExprs]
    exact Outcomes.upholds_none
  | fuel + 1, [], s, m, h, _ => by
    rw [evalExprs]
    exact Outcomes.upholds_nil h
  | fuel + 1, e :: es, s, m, h, hs => by
    rw [evalExprs_cons]
    exact (evalExpr_upholds hb fuel e s m h hs).cons fun m₁ hm₁ h₁ =>
      evalExprs_upholds hb fuel es s m₁ h₁ (Nat.lt_of_lt_of_le hs hm₁.scopes)
termination_by structural fuel => fuel

theorem evalStmt_upholds (hb : ctx.builtins.Respect inv) : ∀ fuel st s m, m.Obeys inv →
    s < m.scopes.size → (evalStmt ctx fuel st s m).Upholds inv m
  | 0, _, _, _, _, _ => by
    rw [evalStmt]
    exact Outcome.yields_none
  | fuel + 1, st, s, m, h, hs => by
    have expr := evalExpr_upholds hb fuel
    rw [evalStmt.eq_def]
    dsimp only
    split
    · exact expr _ s m h hs
    · exact (expr _ s m h hs).andThen fun v m₁ _ h₁ hv => Outcome.yields_some (h₁.stays hv)
    next name e =>
      refine (expr e s m h hs).andThen fun v m₁ _ h₁ hv => Outcome.upholds_some ?_
      exact ⟨⟨by simp [Machine.bind], Nat.le_refl _⟩, h₁.set hv s name,
        hv.mono ⟨by simp [Machine.bind], Nat.le_refl _⟩⟩
termination_by structural fuel => fuel

theorem evalBlock_upholds (hb : ctx.builtins.Respect inv) : ∀ fuel last code s m, m.Obeys inv →
    s < m.scopes.size → m.Admits inv last → (evalBlock ctx fuel last code s m).Upholds inv m
  | 0, _, _, _, _, _, _, _ => by
    rw [evalBlock]
    exact Outcome.yields_none
  | fuel + 1, last, [], s, m, h, _, hlast => by
    rw [evalBlock]
    exact Outcome.upholds_some (h.stays hlast)
  | fuel + 1, last, st :: rest, s, m, h, hs, _ => by
    rw [evalBlock]
    exact (evalStmt_upholds hb fuel st s m h hs).andThen fun v m₁ hm₁ h₁ hv =>
      evalBlock_upholds hb fuel v rest s m₁ h₁ (Nat.lt_of_lt_of_le hs hm₁.scopes) hv
termination_by structural fuel => fuel

theorem evalBranch_upholds (hb : ctx.builtins.Respect inv) : ∀ fuel code s m, m.Obeys inv →
    s < m.scopes.size → (evalBranch ctx fuel code s m).Upholds inv m
  | 0, _, _, _, _, _ => by
    rw [evalBranch]
    exact Outcome.yields_none
  | fuel + 1, code, s, m, h, hs => by
    rw [evalBranch]
    obtain ⟨hgrown, hinner, hs'⟩ := h.enterBranch ctx code hs
    exact (evalBlock_upholds hb fuel .nil code _ _ hinner hs' (Machine.admits_atom rfl)).after hgrown
termination_by structural fuel => fuel

/-- A call is over: its value has arrived. -/
theorem applyValue_reaches (hb : ctx.builtins.Respect inv) : ∀ fuel f args m, m.Obeys inv →
    m.Admits inv f → (∀ v ∈ args, m.Admits inv v) →
      (applyValue ctx fuel f args m).Yields (m.Reaches inv)
  | 0, _, _, _, _, _, _ => by
    rw [applyValue]
    exact Outcome.yields_none
  | fuel + 1, f, args, m, h, hf, hargs => by
    match f with
    | .func c =>
      rw [applyValue_func]
      split
      next fault hfault => exact Outcome.yields_some (h.refuseCall hfault)
      next =>
        obtain ⟨hgrown, hinner, hs⟩ := h.enter hf hargs
        exact ((evalBlock_upholds hb fuel .nil c.body _ _ hinner hs
          (Machine.admits_atom rfl)).after hgrown).arrive
    | .builtin name =>
      rw [applyValue]
      split
      next b hfind =>
        exact h.callBuiltin (hb b (List.mem_of_find?_eq_some hfind)) _ hargs
      next => exact Outcome.yields_some (h.refuse hf)
    | .int _ | .bool _ | .str _ | .nil | .list _ | .returned _ =>
      rw [applyValue.eq_def]
      exact Outcome.yields_some (h.refuse hf)
termination_by structural fuel => fuel

end

/-- The value of a program has arrived. -/
theorem evalProgram_reaches (hb : ctx.builtins.Respect inv) {m : Machine} (h : m.Obeys inv)
    {s : ScopeId} (hs : s < m.scopes.size) (fuel : Nat) (code : Code) :
    (evalProgram ctx fuel code s m).Yields (m.Reaches inv) :=
  (evalBlock_upholds hb fuel .nil code s m h hs (Machine.admits_atom rfl)).arrive

end

end Scriptlet
