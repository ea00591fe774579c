import Scriptlet.Proofs.Lambdas

/-!
# What functions in a state were made from

Functions are made from literals only. So if all literals of a program have a property, and all
functions in a state were made from such literals and have bodies with such literals, then this is
so of whatever the program comes to and leaves behind. What faults hold may be given a weaker
property than what scopes and lists do.
-/

namespace Scriptlet

/-- All functions that a value is or arrives as were made from literals with a property, and so will
be the functions that their bodies make. -/
def Value.MadeOf (Q : Lambda Nat → Prop) : Value → Prop
  | func c => Q c.lambda ∧ ∀ f ∈ Block.lambdas c.body, Q f
  | returned v => v.MadeOf Q
  | _ => True

/-- All functions in scopes and lists were made from literals with a property, and those in faults
from literals with another. -/
structure Machine.MadeOf (Q R : Lambda Nat → Prop) (m : Machine) : Prop where
  bound : ∀ s name v, m.scopes.own? s name = some v → v.MadeOf Q
  listed : ∀ a, ∀ v ∈ m.lists.elements a, v.MadeOf Q
  noted : ∀ fault ∈ m.faults, ∀ v ∈ fault.values, v.MadeOf R

structure Machine.MadeWith (Q R : Lambda Nat → Prop) (v : Value) (m : Machine) : Prop
    extends Machine.MadeOf Q R m where
  value : v.MadeOf Q

namespace Value.MadeOf

variable {Q R : Lambda Nat → Prop} {v : Value}

theorem of_isAtom (h : v.isAtom = true) : v.MadeOf Q := by
  cases v with
  | func | returned => cases h
  | _ => trivial

theorem mono (hQR : ∀ f, Q f → R f) (h : v.MadeOf Q) : v.MadeOf R := by
  induction v with
  | func c => exact ⟨hQR _ h.1, fun f hf => hQR f (h.2 f hf)⟩
  | returned v ih => exact ih h
  | _ => trivial

theorem arrived (h : v.MadeOf Q) : v.arrived.MadeOf Q := by
  cases v <;> exact h

end Value.MadeOf

/-! ## Steps -/

/-- What `Value.MadeOf` says, for built-in functions that neither see nor make a scope: nothing is
said of values in states with scopes. -/
def Invariant.madeOf {Q R : Lambda Nat → Prop} (hQR : ∀ f, Q f → R f) : Invariant where
  value n _ v := n = 0 → v.MadeOf Q
  fault n _ fault := n = 0 → ∀ v ∈ fault.values, v.MadeOf R
  outer _ _ := True
  value_mono hn _ h hzero := h (Nat.le_zero.1 (hzero ▸ hn))
  fault_mono hn _ h hzero := h (Nat.le_zero.1 (hzero ▸ hn))
  atom h _ := .of_isAtom h
  list _ _ _ := trivial
  func hs hzero := absurd (hzero ▸ hs) (Nat.not_lt_zero _)
  arrived h hzero := (h hzero).arrived
  fault_of_values h hzero v hv := (h v hv hzero).mono hQR
  outer_of_lt _ := trivial
  outer_of_func _ := trivial

namespace Machine.MadeOf

variable {Q R : Lambda Nat → Prop} {m : Machine} {v w : Value}

theorem stays (h : m.MadeOf Q R) (hv : v.MadeOf Q) : m.MadeWith Q R v :=
  ⟨h, hv⟩

theorem note (h : m.MadeOf Q R) {fault : Fault} (hfault : ∀ v ∈ fault.values, v.MadeOf R) :
    (m.note fault).MadeOf Q R where
  bound := h.bound
  listed := h.listed
  noted f hf := by
    rcases Array.mem_push.1 hf with hf | rfl
    · exact h.noted f hf
    · exact hfault

theorem settle (h : m.MadeOf Q R) {r : Except Fault Value}
    (hr : Answers r (·.MadeOf Q) (∀ v ∈ ·.values, v.MadeOf R)) :
    (m.settle r).2.MadeWith Q R (m.settle r).1 := by
  cases r with
  | ok v => exact h.stays hr
  | error fault => exact (h.note hr).stays trivial

theorem arityFault (h : m.MadeOf Q R) {c : Closure} {got : Nat} {fault : Fault}
    (hfault : c.arityFault? got = some fault) : (m.note fault).MadeOf Q R := by
  rw [Closure.arityFault?] at hfault
  split at hfault
  · cases hfault
  · cases hfault
    exact h.note fun v hv => absurd hv List.not_mem_nil

theorem refuseCall (h : m.MadeOf Q R) {ctx : Context} {c : Closure} {got : Nat} {fault : Fault}
    (hfault : ctx.refusal? c got = some fault) :
    (m.settle (.error fault)).2.MadeWith Q R (m.settle (.error fault)).1 := by
  rw [Context.refusal?] at hfault
  split at hfault
  · exact (h.arityFault hfault).stays trivial
  · cases hfault

theorem set (h : m.MadeOf Q R) (hv : v.MadeOf Q) (s : ScopeId) (name : String) :
    Machine.MadeOf Q R { m with scopes := m.scopes.set s name v } where
  bound t other w hw := by
    rw [Scopes.own?_set] at hw
    split at hw
    · cases hw
      exact hv
    · exact h.bound t other w hw
  listed := h.listed
  noted := h.noted

theorem newList (h : m.MadeOf Q R) {vs : List Value} (hvs : ∀ v ∈ vs, v.MadeOf Q) :
    (m.newList vs).2.MadeWith Q R (m.newList vs).1 where
  bound := h.bound
  listed a v hv := by
    rw [Machine.newList] at hv
    have ha : a < m.lists.size + 1 := by simpa using Lists.lt_size_of_mem hv
    rcases Nat.lt_succ_iff_lt_or_eq.1 ha with ha | rfl
    · exact h.listed a v (Lists.elements_alloc_of_lt ha ▸ hv)
    · exact hvs v (Lists.elements_alloc_self m.lists vs ▸ hv)
  noted := h.noted
  value := trivial

/-- A scope is added, inside of another or not. -/
theorem add (h : m.MadeOf Q R) {scope : Scope}
    (hbindings : ∀ name v, scope.bindings.lookup name = some v → v.MadeOf Q) :
    Machine.MadeOf Q R { m with scopes := m.scopes.add scope } where
  bound t name v hv := by
    rw [Scopes.own?_add] at hv
    split at hv
    · exact hbindings name v hv
    · exact h.bound t name v hv
  listed := h.listed
  noted := h.noted

theorem newRoot (h : m.MadeOf Q R) : m.newRoot.2.MadeOf Q R :=
  h.add fun _ _ hv => nomatch hv

theorem enclose (h : m.MadeOf Q R) (s : ScopeId) {bindings : Bindings}
    (hbindings : ∀ name v, bindings.lookup name = some v → v.MadeOf Q) :
    (m.enclose s bindings).2.MadeOf Q R :=
  h.add hbindings

/-- Where the body of a function runs. -/
theorem enter (h : m.MadeOf Q R) (c : Closure) {args : List Value}
    (hargs : ∀ v ∈ args, v.MadeOf Q) : (m.enter c args).2.MadeOf Q R := by
  have hnoted : (((c.arityFault? args.length).map m.note).getD m).MadeOf Q R := by
    cases hfault : c.arityFault? args.length with
    | none => exact h
    | some fault => exact h.arityFault hfault
  exact hnoted.enclose _ (Bindings.lookup_bindParams (P := (·.MadeOf Q)) trivial c.params args []
    hargs fun name v hv => nomatch hv)

/-- Where a branch runs. -/
theorem enterBranch (h : m.MadeOf Q R) (ctx : Context) (code : Code) (s : ScopeId) :
    (ctx.enterBranch code s m).2.MadeOf Q R := by
  rw [Context.enterBranch]
  split
  · exact h.enclose s fun name v hv => nomatch hv
  · exact h

theorem resolve (h : m.MadeOf Q R) (ctx : Context) (name : String) (s : ScopeId) :
    (ctx.resolve name s m).2.MadeWith Q R (ctx.resolve name s m).1 := by
  have noted : (m.note (.unbound name)).MadeOf Q R := h.note fun v hv => absurd hv List.not_mem_nil
  unfold Context.resolve
  split
  · exact h.stays trivial
  · split
    next v hv =>
      obtain ⟨t, -, ht⟩ := Scopes.exists_own?_of_get? hv
      exact h.stays (h.bound t name v ht)
    next =>
      dsimp only
      split
      · exact (noted.set (v := .nil) trivial _ name).stays trivial
      · exact noted.stays trivial

section

variable (hQR : ∀ f, Q f → R f)
include hQR

theorem refuse (h : m.MadeOf Q R) (hv : v.MadeOf Q) :
    (m.settle (.error (.notAFunction v))).2.MadeWith Q R
      (m.settle (.error (.notAFunction v))).1 :=
  h.settle (List.forall_mem_singleton.2 (hv.mono hQR) : ∀ w ∈ [v], w.MadeOf R)

theorem prefixOp (h : m.MadeOf Q R) (hv : v.MadeOf Q) (op : PrefixOp) :
    (m.settle (op.apply m.lists v)).2.MadeWith Q R (m.settle (op.apply m.lists v)).1 :=
  h.settle ((op.apply_spec m.lists v).mono (fun _ => .of_isAtom) fun _ hfault w hw =>
    hfault w hw ▸ hv.mono hQR)

theorem infixOp (h : m.MadeOf Q R) (hv : v.MadeOf Q) (hw : w.MadeOf Q) (op : InfixOp) :
    (m.settle (op.apply m.lists v w)).2.MadeWith Q R (m.settle (op.apply m.lists v w)).1 := by
  refine h.settle ((op.apply_spec m.lists v w).mono (fun _ => .of_isAtom) fun fault hfault u hu => ?_)
  rcases hfault u hu with rfl | rfl
  · exact hv.mono hQR
  · exact hw.mono hQR

theorem index (h : m.MadeOf Q R) (hv : v.MadeOf Q) (hw : w.MadeOf Q) :
    (m.settle (v.index m.lists w)).2.MadeWith Q R (m.settle (v.index m.lists w)).1 := by
  refine h.settle ((v.index_spec m.lists w).mono ?_ fun fault hfault u hu => ?_)
  · rintro u ⟨a, -, hu⟩
    exact h.listed a u hu
  · rcases hfault u hu with rfl | rfl
    · exact hv.mono hQR
    · exact hw.mono hQR

theorem callBuiltin (h : m.MadeOf Q R) {b : Builtin} (hb : b ∈ Builtins.standard.table)
    (sink : Sink) {args : List Value} (hargs : ∀ v ∈ args, v.MadeOf Q) :
    Outcome.Yields (m.callBuiltin sink b args) (Machine.MadeWith Q R) := by
  intro v m' hv
  obtain ⟨result, store, haction, hsettle⟩ := Machine.callBuiltin_eq_some_iff.1 hv
  have hscopes := (Builtins.standard_scopeless b hb).leavesScopes
  -- without any scopes the call does the same, and there the invariant says what is needed
  have hsame := (Builtins.standard_scopeless b hb).blindTo (fun _ _ => True) sink args m.store
    .empty trivial
  rw [haction] at hsame
  generalize haction' : b.action sink args ⟨.empty, m.store.lists, m.store.console⟩ = o at hsame
  cases hsame with | @some _ r' hsame
  obtain ⟨result', store'⟩ := r'
  obtain ⟨rfl, -, hlists, -⟩ := hsame
  have hblank : Store.Obeys (.madeOf hQR) ⟨.empty, m.store.lists, m.store.console⟩ := by
    refine ⟨fun s name w hw => ?_, fun _ _ _ => trivial, Nat.zero_le _,
      fun a w hw _ => h.listed a w hw⟩
    simp [Scopes.own?, Scopes.empty] at hw
  have hrespects := Builtins.standard_respect (.madeOf hQR) b hb sink args _ hblank
    (fun w hw _ => hargs w hw) result store' haction'
  have hnone : store'.scopes.size = 0 := by rw [hscopes _ _ _ _ _ haction']; rfl
  have hmade : (m.withStore store).MadeOf Q R := by
    refine ⟨fun s name w hw => ?_, fun a w hw => ?_, h.noted⟩
    · rw [Machine.withStore, hscopes _ _ _ _ _ haction] at hw
      exact h.bound s name w hw
    · exact hrespects.obeys.listed.element a w (hlists ▸ hw) hnone
  have hanswers : Answers result (·.MadeOf Q) (∀ w ∈ ·.values, w.MadeOf R) :=
    hrespects.answers.mono (fun _ hw => hw hnone) fun _ hfault => hfault hnone
  obtain ⟨rfl, rfl⟩ := Prod.mk.inj hsettle
  exact hmade.settle hanswers

end

end Machine.MadeOf

/-! ## Evaluation -/

/-- A step that goes on leaves what its parts do. What its first part leaves on its way out has the
property already. -/
theorem Outcome.Yields.andThen {P : Value → Machine → Prop} {o : Outcome}
    {next : Value → Machine → Outcome} (ho : o.Yields P)
    (hnext : ∀ v m, P v m → (next v m).Yields P) : (o.andThen next).Yields P := by
  rcases o with _ | ⟨v, m⟩
  · exact Outcome.yields_none
  cases v with
  | returned v => exact ho
  | _ => exact hnext _ m (ho _ m rfl)

def Outcomes.MadeWith (Q R : Lambda Nat → Prop) (o : Outcomes) : Prop :=
  ∀ r m, o = some (r, m) → m.MadeOf Q R ∧
    match r with
    | .ok vs => ∀ v ∈ vs, v.MadeOf Q
    | .error v => v.MadeOf Q

section

variable {Q R : Lambda Nat → Prop} {m : Machine}

theorem Outcome.Yields.arrive {o : Outcome} (ho : o.Yields (Machine.MadeWith Q R)) :
    o.arrive.Yields (Machine.MadeWith Q R) := by
  intro v m h
  obtain ⟨⟨w, m₁⟩, hw, hv⟩ := Option.map_eq_some_iff.1 h
  cases hv
  have hmade := ho w _ hw
  exact hmade.stays hmade.value.arrived

theorem Outcomes.madeWith_nil (h : m.MadeOf Q R) : Outcomes.MadeWith Q R (some (.ok [], m)) := by
  intro r m' hr
  cases hr
  exact ⟨h, fun v hv => nomatch hv⟩

theorem Outcomes.madeWith_cons {o : Outcome} {rest : Machine → Outcomes}
    (ho : o.Yields (Machine.MadeWith Q R))
    (hrest : ∀ m, m.MadeOf Q R → (rest m).MadeWith Q R) : (Outcomes.cons o rest).MadeWith Q R := by
  intro r m' h
  rw [Outcomes.cons.eq_def] at h
  split at h
  · cases h
  next v m₁ =>
    cases h
    obtain ⟨hm, hv⟩ := ho _ _ rfl
    exact ⟨hm, hv⟩
  next v m₁ hpass =>
    obtain ⟨hm, hv⟩ := ho v m₁ rfl
    have hrest := hrest m₁ hm
    split at h
    · cases h
    next hvs =>
      cases h
      exact hrest _ _ hvs
    next hvs =>
      cases h
      obtain ⟨hm', hvs⟩ := hrest _ _ hvs
      exact ⟨hm', List.forall_mem_cons.2 ⟨hv, hvs⟩⟩

theorem Outcomes.MadeWith.andThen {o : Outcomes} {next : List Value → Machine → Outcome}
    (ho : o.MadeWith Q R) (hnext : ∀ vs m, m.MadeOf Q R → (∀ v ∈ vs, v.MadeOf Q) →
      (next vs m).Yields (Machine.MadeWith Q R)) :
    (o.andThen next).Yields (Machine.MadeWith Q R) := by
  rcases o with _ | ⟨v | vs, m⟩
  · exact Outcome.yields_none
  · obtain ⟨hm, hv⟩ := ho _ m rfl
    exact Outcome.yields_some (hm.stays hv)
  · obtain ⟨hm, hvs⟩ := ho _ m rfl
    exact hnext vs m hm hvs

end

section

variable {Q R : Lambda Nat → Prop} {ctx : Context}

mutual

/-- If the literals of an expression have a property, then functions that were not there before it
were made from literals with the property. -/
theorem evalExpr_madeWith (hQR : ∀ f, Q f → R f) (hb : ctx.builtins = .standard) :
    ∀ fuel e s m, m.MadeOf Q R → (∀ f ∈ e.lambdas, Q f) →
      (evalExpr ctx fuel e s m).Yields (Machine.MadeWith Q R)
  | 0, _, _, _, _, _ => by
    rw [evalExpr]
    exact Outcome.yields_none
  | fuel + 1, e, s, m, h, he => by
    have expr := evalExpr_madeWith hQR hb fuel
    have exprs := evalExprs_madeWith hQR hb fuel
    have branch := evalBranch_madeWith hQR hb fuel
    rw [evalExpr.eq_def]
    dsimp only
    split
    · exact Outcome.yields_some (h.resolve ctx _ s)
    · exact Outcome.yields_some (h.stays trivial)
    · exact Outcome.yields_some (h.stays trivial)
    · exact Outcome.yields_some (h.stays trivial)
    · exact Outcome.yields_some (h.stays trivial)
    · rw [Expr.lambdas] at he
      exact (exprs _ s m h he).andThen fun vs m₁ h₁ hvs => Outcome.yields_some (h₁.newList hvs)
    next op operand =>
      rw [Expr.lambdas] at he
      exact (expr operand s m h he).andThen fun v m₁ h₁ =>
        Outcome.yields_some (h₁.prefixOp hQR h₁.value op)
    next left right =>
      rw [Expr.lambdas, List.forall_mem_append] at he
      refine (expr left s m h he.1).andThen fun l m₁ h₁ => ?_
      split
      · exact (expr right s m₁ h₁.toMadeOf he.2).andThen fun r m₂ h₂ =>
          Outcome.yields_some (h₂.stays trivial)
      · exact Outcome.yields_some (h₁.stays trivial)
    next left right =>
      rw [Expr.lambdas, List.forall_mem_append] at he
      refine (expr left s m h he.1).andThen fun l m₁ h₁ => ?_
      split
      · exact Outcome.yields_some (h₁.stays trivial)
      · exact (expr right s m₁ h₁.toMadeOf he.2).andThen fun r m₂ h₂ =>
          Outcome.yields_some (h₂.stays trivial)
    next op left right _ _ =>
      rw [Expr.lambdas, List.forall_mem_append] at he
      refine (expr left s m h he.1).andThen fun l m₁ h₁ => ?_
      exact (expr right s m₁ h₁.toMadeOf he.2).andThen fun r m₂ h₂ =>
        Outcome.yields_some (h₂.infixOp hQR h₁.value h₂.value op)
    next target position =>
      rw [Expr.lambdas, List.forall_mem_append] at he
      refine (expr target s m h he.1).andThen fun t m₁ h₁ => ?_
      exact (expr position s m₁ h₁.toMadeOf he.2).andThen fun p m₂ h₂ =>
        Outcome.yields_some (h₂.index hQR h₁.value h₂.value)
    next condition consequence alternative =>
      cases alternative with
      | none =>
        rw [Expr.lambdas, List.forall_mem_append] at he
        refine (expr condition s m h he.1).andThen fun c m₁ h₁ => ?_
        split
        · exact branch _ s m₁ h₁.toMadeOf he.2
        · exact Outcome.yields_some (h₁.stays trivial)
      | some alternative =>
        rw [Expr.lambdas, List.forall_mem_append, List.forall_mem_append] at he
        refine (expr condition s m h he.1).andThen fun c m₁ h₁ => ?_
        split
        · exact branch _ s m₁ h₁.toMadeOf he.2.1
        · exact branch _ s m₁ h₁.toMadeOf he.2.2
    next label params body =>
      rw [Expr.lambdas, List.forall_mem_cons] at he
      exact Outcome.yields_some (h.stays he)
    next callee arguments =>
      rw [Expr.lambdas, List.forall_mem_append] at he
      refine (expr callee s m h he.1).andThen fun f m₁ h₁ => ?_
      exact (exprs arguments s m₁ h₁.toMadeOf he.2).andThen fun args m₂ h₂ hargs =>
        applyValue_madeWith hQR hb fuel f args m₂ h₂ h₁.value hargs
termination_by structural fuel => fuel

theorem evalExprs_madeWith (hQR : ∀ f, Q f → R f) (hb : ctx.builtins = .standard) :
    ∀ fuel es s m, m.MadeOf Q R → (∀ f ∈ exprsLambdas es, Q f) →
      (evalExprs ctx fuel es s m).MadeWith Q R
  | 0, _, _, _, _, _ => by
    rw [evalExprs]
    exact fun _ _ h => nomatch h
  | fuel + 1, [], s, m, h, _ => by
    rw [evalExprs]
    exact Outcomes.madeWith_nil h
  | fuel + 1, e :: es, s, m, h, he => by
    rw [exprsLambdas, List.forall_mem_append] at he
    rw [evalExprs_cons]
    exact Outcomes.madeWith_cons (evalExpr_madeWith hQR hb fuel e s m h he.1) fun m₁ h₁ =>
      evalExprs_madeWith hQR hb fuel es s m₁ h₁ he.2
termination_by structural fuel => fuel

theorem evalStmt_madeWith (hQR : ∀ f, Q f → R f) (hb : ctx.builtins = .standard) :
    ∀ fuel st s m, m.MadeOf Q R → (∀ f ∈ st.lambdas, Q f) →
      (evalStmt ctx fuel st s m).Yields (Machine.MadeWith Q R)
  | 0, _, _, _, _, _ => by
    rw [evalStmt]
    exact Outcome.yields_none
  | fuel + 1, st, s, m, h, he => by
    have expr := evalExpr_madeWith hQR hb fuel
    rw [evalStmt.eq_def]
    dsimp only
    split
    · exact expr _ s m h he
    · exact (expr _ s m h he).andThen fun v m₁ h₁ => Outcome.yields_some (h₁.stays h₁.value)
    next name e =>
      exact (expr e s m h he).andThen fun v m₁ h₁ =>
        Outcome.yields_some ((h₁.set h₁.value s name).stays h₁.value)
termination_by structural fuel => fuel

theorem evalBlock_madeWith (hQR : ∀ f, Q f → R f) (hb : ctx.builtins = .standard) :
    ∀ fuel last code s m, m.MadeOf Q R → (∀ f ∈ Block.lambdas code, Q f) → last.MadeOf Q →
      (evalBlock ctx fuel last code s m).Yields (Machine.MadeWith Q R)
  | 0, _, _, _, _, _, _, _ => by
    rw [evalBlock]
    exact Outcome.yields_none
  | fuel + 1, last, [], s, m, h, _, hlast => by
    rw [evalBlock]
    exact Outcome.yields_some (h.stays hlast)
  | fuel + 1, last, st :: rest, s, m, h, he, _ => by
    rw [Block.lambdas, List.forall_mem_append] at he
    rw [evalBlock]
    exact (evalStmt_madeWith hQR hb fuel st s m h he.1).andThen fun v m₁ h₁ =>
      evalBlock_madeWith hQR hb fuel v rest s m₁ h₁.toMadeOf he.2 h₁.value
termination_by structural fuel => fuel

theorem evalBranch_madeWith (hQR : ∀ f, Q f → R f) (hb : ctx.builtins = .standard) :
    ∀ fuel code s m, m.MadeOf Q R → (∀ f ∈ Block.lambdas code, Q f) →
      (evalBranch ctx fuel code s m).Yields (Machine.MadeWith Q R)
  | 0, _, _, _, _, _ => by
    rw [evalBranch]
    exact Outcome.yields_none
  | fuel + 1, code, s, m, h, he => by
    rw [evalBranch]
    exact evalBlock_madeWith hQR hb fuel .nil code _ _ (h.enterBranch ctx code s) he trivial
termination_by structural fuel => fuel

theorem applyValue_madeWith (hQR : ∀ f, Q f → R f) (hb : ctx.builtins = .standard) :
    ∀ fuel f args m, m.MadeOf Q R → f.MadeOf Q → (∀ v ∈ args, v.MadeOf Q) →
      (applyValue ctx fuel f args m).Yields (Machine.MadeWith Q R)
  | 0, _, _, _, _, _, _ => by
    rw [applyValue]
    exact Outcome.yields_none
  | fuel + 1, f, args, m, h, hf, hargs => by
    match f with
    | .func c =>
      rw [applyValue_func]
      split
      next fault hfault => exact Outcome.yields_some (h.refuseCall hfault)
      next =>
        exact (evalBlock_madeWith hQR hb fuel .nil c.body _ _ (h.enter c hargs) hf.2 trivial).arrive
    | .builtin name =>
      rw [applyValue]
      split
      next b hfind =>
        exact h.callBuiltin hQR (List.mem_of_find?_eq_some (hb ▸ hfind)) _ hargs
      next => exact Outcome.yields_some (h.refuse hQR hf)
    | .int _ | .bool _ | .str _ | .nil | .list _ | .returned _ =>
      rw [applyValue.eq_def]
      exact Outcome.yields_some (h.refuse hQR hf)
termination_by structural fuel => fuel

end

theorem evalProgram_madeWith (hQR : ∀ f, Q f → R f) (hb : ctx.builtins = .standard) {m : Machine}
    (h : m.MadeOf Q R) (fuel : Nat) {code : Code} (hcode : ∀ f ∈ Block.lambdas code, Q f)
    (s : ScopeId) : (evalProgram ctx fuel code s m).Yields (Machine.MadeWith Q R) :=
  (evalBlock_madeWith hQR hb fuel .nil code s m h hcode trivial).arrive

end

end Scriptlet
