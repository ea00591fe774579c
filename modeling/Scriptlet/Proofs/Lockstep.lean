import Scriptlet.Proofs.Upkeep

/-!
# Runs in lockstep

Two runs of one program that give the same values, in different contexts, from different states or
with different amounts of fuel. A `Lockstep` is something to show about what both runs do from two
states. If it goes through one step after the other, and if it is true of the steps that look at
contexts and states, then it is true of whatever the evaluator does.
-/

namespace Scriptlet

/-- Something to show about two runs, the second of which has `extra` more fuel. -/
structure Lockstep (ctx ctx' : Context) (extra : Nat) where
  /-- States from which both runs go on. -/
  state : Machine → Machine → Prop
  /-- What is shown about what both do from two states. -/
  rel : Machine → Machine → ∀ {α : Type}, Option (α × Machine) → Option (α × Machine) → Prop
  lists_eq : ∀ {m m'}, state m m' → m.lists = m'.lists
  exhausted : ∀ {m m'} {α : Type} {o' : Option (α × Machine)}, rel m m' none o'
  value : ∀ {m m'}, state m m' → ∀ {α : Type} (v : α), rel m m' (some (v, m)) (some (v, m'))
  bind : ∀ {m m'} {α β : Type} {o o' : Option (α × Machine)}
    {next next' : α × Machine → Option (β × Machine)}, rel m m' o o' →
    (∀ v m₁ m₁', state m₁ m₁' → rel m₁ m₁' (next (v, m₁)) (next' (v, m₁'))) →
      rel m m' (o.bind next) (o'.bind next')
  settle : ∀ {m m'}, state m m' → ∀ r, rel m m' (some (m.settle r)) (some (m'.settle r))
  resolve : ∀ {m m'}, state m m' → ∀ name s,
    rel m m' (some (ctx.resolve name s m)) (some (ctx'.resolve name s m'))
  newList : ∀ {m m'}, state m m' → ∀ vs, rel m m' (some (m.newList vs)) (some (m'.newList vs))
  bindName : ∀ {m m'}, state m m' → ∀ s name v,
    rel m m' (some (v, m.bind s name v)) (some (v, m'.bind s name v))
  enterBranch : ∀ {m m'}, state m m' → ∀ code s,
    rel m m' (some (ctx.enterBranch code s m)) (some (ctx'.enterBranch code s m'))
  builtins_eq : ctx.builtins = ctx'.builtins
  callBuiltin : ∀ {m m'}, state m m' → ∀ b args,
    rel m m' (m.callBuiltin ctx.sink b args) (m'.callBuiltin ctx'.sink b args)
  /-- A function may be called with a wrong number of arguments. -/
  callFunction : ∀ {m m'}, state m m' → ∀ fuel c args,
    (∀ s m₁ m₁', state m₁ m₁' → rel m₁ m₁' (evalBlock ctx fuel .nil c.body s m₁)
      (evalBlock ctx' (extra + fuel) .nil c.body s m₁')) →
    rel m m' (applyValue ctx (fuel + 1) (.func c) args m)
      (applyValue ctx' (extra + fuel + 1) (.func c) args m')

namespace Lockstep

variable {ctx ctx' : Context} {extra : Nat} (ρ : Lockstep ctx ctx' extra) {m m' : Machine}

/-! ## One step after the other -/

theorem ite {α : Type} {c c' : Prop} [Decidable c] [Decidable c'] (hc : c ↔ c')
    {o₁ o₁' o₂ o₂' : Option (α × Machine)} (h₁ : ρ.rel m m' o₁ o₁') (h₂ : ρ.rel m m' o₂ o₂') :
    ρ.rel m m' (if c then o₁ else o₂) (if c' then o₁' else o₂') := by
  by_cases h : c
  · rwa [if_pos h, if_pos (hc.1 h)]
  · rwa [if_neg h, if_neg (mt hc.2 h)]

theorem andThen {o o' : Outcome} {next next' : Value → Machine → Outcome} (ho : ρ.rel m m' o o')
    (hnext : ∀ v m₁ m₁', ρ.state m₁ m₁' → ρ.rel m₁ m₁' (next v m₁) (next' v m₁')) :
    ρ.rel m m' (o.andThen next) (o'.andThen next') := by
  rw [Outcome.andThen_eq_bind, Outcome.andThen_eq_bind]
  exact ρ.bind ho fun v m₁ m₁' hm => ρ.ite .rfl (ρ.value hm v) (hnext v m₁ m₁' hm)

theorem allThen {o o' : Outcomes} {next next' : List Value → Machine → Outcome}
    (ho : ρ.rel m m' o o')
    (hnext : ∀ vs m₁ m₁', ρ.state m₁ m₁' → ρ.rel m₁ m₁' (next vs m₁) (next' vs m₁')) :
    ρ.rel m m' (o.andThen next) (o'.andThen next') := by
  rw [Outcomes.andThen_eq_bind, Outcomes.andThen_eq_bind]
  refine ρ.bind ho fun r m₁ m₁' hm => ?_
  cases r with
  | error v => exact ρ.value hm v
  | ok vs => exact hnext vs m₁ m₁' hm

theorem cons {o o' : Outcome} {rest rest' : Machine → Outcomes} (ho : ρ.rel m m' o o')
    (hrest : ∀ m₁ m₁', ρ.state m₁ m₁' → ρ.rel m₁ m₁' (rest m₁) (rest' m₁')) :
    ρ.rel m m' (Outcomes.cons o rest) (Outcomes.cons o' rest') := by
  rw [Outcomes.cons_eq_bind, Outcomes.cons_eq_bind]
  exact ρ.bind ho fun v m₁ m₁' hm => ρ.ite .rfl (ρ.value hm _)
    (ρ.bind (hrest m₁ m₁' hm) fun r m₂ m₂' hm₂ => ρ.value hm₂ _)

theorem arrive {o o' : Outcome} (ho : ρ.rel m m' o o') : ρ.rel m m' o.arrive o'.arrive := by
  rw [Outcome.arrive_eq_bind, Outcome.arrive_eq_bind]
  exact ρ.bind ho fun v m₁ m₁' hm => ρ.value hm v.arrived

/-- Both runs count a value as the same truth value. -/
theorem truthy_iff (hm : ρ.state m m') (v : Value) :
    v.truthy m.lists = true ↔ v.truthy m'.lists = true := by
  rw [ρ.lists_eq hm]

theorem truth (hm : ρ.state m m') (v : Value) :
    ρ.rel m m' (some (Value.bool (v.truthy m.lists), m)) (some (.bool (v.truthy m'.lists), m')) := by
  rw [ρ.lists_eq hm]
  exact ρ.value hm _

/-! ## The evaluator, part by part -/

mutual

theorem rel_expr : ∀ fuel e s m m', ρ.state m m' →
    ρ.rel m m' (evalExpr ctx fuel e s m) (evalExpr ctx' (extra + fuel) e s m')
  | 0, _, _, _, _, _ => by
    rw [evalExpr]
    exact ρ.exhausted
  | fuel + 1, e, s, m, m', hm => by
    have expr := rel_expr fuel
    have exprs := rel_exprs fuel
    have branch := rel_branch fuel
    rw [← Nat.add_assoc]
    match e with
    | .ident name =>
      rw [evalExpr, evalExpr]
      exact ρ.resolve hm name s
    | .int _ | .bool _ | .str _ | .nil | .func _ _ _ =>
      rw [evalExpr, evalExpr]
      exact ρ.value hm _
    | .list elements =>
      rw [evalExpr, evalExpr]
      exact ρ.allThen (exprs elements s m m' hm) fun vs m₁ m₁' hm₁ => ρ.newList hm₁ vs
    | .prefixOp op operand =>
      rw [evalExpr, evalExpr]
      refine ρ.andThen (expr operand s m m' hm) fun v m₁ m₁' hm₁ => ?_
      rw [ρ.lists_eq hm₁]
      exact ρ.settle hm₁ _
    | .infixOp op left right =>
      -- `and` and `or` may do without their right operand
      by_cases hand : op = .and
      · subst hand
        rw [evalExpr, evalExpr]
        exact ρ.andThen (expr left s m m' hm) fun l m₁ m₁' hm₁ =>
          ρ.ite (ρ.truthy_iff hm₁ l) (ρ.andThen (expr right s m₁ m₁' hm₁)
            fun r m₂ m₂' hm₂ => ρ.truth hm₂ r) (ρ.value hm₁ _)
      · by_cases hor : op = .or
        · subst hor
          rw [evalExpr, evalExpr]
          exact ρ.andThen (expr left s m m' hm) fun l m₁ m₁' hm₁ =>
            ρ.ite (ρ.truthy_iff hm₁ l) (ρ.value hm₁ _) (ρ.andThen (expr right s m₁ m₁' hm₁)
              fun r m₂ m₂' hm₂ => ρ.truth hm₂ r)
        · rw [evalExpr_infixOp hand hor, evalExpr_infixOp hand hor]
          refine ρ.andThen (expr left s m m' hm) fun l m₁ m₁' hm₁ =>
            ρ.andThen (expr right s m₁ m₁' hm₁) fun r m₂ m₂' hm₂ => ?_
          rw [ρ.lists_eq hm₂]
          exact ρ.settle hm₂ _
    | .index target position =>
      rw [evalExpr, evalExpr]
      refine ρ.andThen (expr target s m m' hm) fun t m₁ m₁' hm₁ =>
        ρ.andThen (expr position s m₁ m₁' hm₁) fun p m₂ m₂' hm₂ => ?_
      rw [ρ.lists_eq hm₂]
      exact ρ.settle hm₂ _
    | .cond condition consequence alternative =>
      rw [evalExpr, evalExpr]
      refine ρ.andThen (expr condition s m m' hm) fun c m₁ m₁' hm₁ =>
        ρ.ite (ρ.truthy_iff hm₁ c) (branch consequence s m₁ m₁' hm₁) ?_
      cases alternative with
      | some code => exact branch code s m₁ m₁' hm₁
      | none => exact ρ.value hm₁ _
    | .call callee arguments =>
      rw [evalExpr, evalExpr]
      exact ρ.andThen (expr callee s m m' hm) fun f m₁ m₁' hm₁ =>
        ρ.allThen (exprs arguments s m₁ m₁' hm₁) fun args m₂ m₂' hm₂ =>
          rel_call fuel f args m₂ m₂' hm₂
termination_by structural fuel => fuel

theorem rel_exprs : ∀ fuel es s m m', ρ.state m m' →
    ρ.rel m m' (evalExprs ctx fuel es s m)
      (evalExprs ctx' (extra + fuel) es s m')
  | 0, _, _, _, _, _ => by
    rw [evalExprs]
    exact ρ.exhausted
  | fuel + 1, [], s, m, m', hm => by
    rw [← Nat.add_assoc, evalExprs, evalExprs]
    exact ρ.value hm _
  | fuel + 1, e :: es, s, m, m', hm => by
    rw [← Nat.add_assoc, evalExprs_cons, evalExprs_cons]
    exact ρ.cons (rel_expr fuel e s m m' hm) fun m₁ m₁' hm₁ => rel_exprs fuel es s m₁ m₁' hm₁
termination_by structural fuel => fuel

theorem rel_stmt : ∀ fuel st s m m', ρ.state m m' →
    ρ.rel m m' (evalStmt ctx fuel st s m) (evalStmt ctx' (extra + fuel) st s m')
  | 0, _, _, _, _, _ => by
    rw [evalStmt]
    exact ρ.exhausted
  | fuel + 1, .expr e, s, m, m', hm => by
    rw [← Nat.add_assoc, evalStmt, evalStmt]
    exact rel_expr fuel e s m m' hm
  | fuel + 1, .ret e, s, m, m', hm => by
    rw [← Nat.add_assoc, evalStmt, evalStmt]
    exact ρ.andThen (rel_expr fuel e s m m' hm) fun v m₁ m₁' hm₁ => ρ.value hm₁ _
  | fuel + 1, .var name e, s, m, m', hm => by
    rw [← Nat.add_assoc, evalStmt, evalStmt]
    exact ρ.andThen (rel_expr fuel e s m m' hm) fun v m₁ m₁' hm₁ => ρ.bindName hm₁ s name v
termination_by structural fuel => fuel

theorem rel_block : ∀ fuel last code s m m', ρ.state m m' →
    ρ.rel m m' (evalBlock ctx fuel last code s m)
      (evalBlock ctx' (extra + fuel) last code s m')
  | 0, _, _, _, _, _, _ => by
    rw [evalBlock]
    exact ρ.exhausted
  | fuel + 1, last, [], s, m, m', hm => by
    rw [← Nat.add_assoc, evalBlock, evalBlock]
    exact ρ.value hm last
  | fuel + 1, last, st :: rest, s, m, m', hm => by
    rw [← Nat.add_assoc, evalBlock, evalBlock]
    exact ρ.andThen (rel_stmt fuel st s m m' hm) fun v m₁ m₁' hm₁ =>
      rel_block fuel v rest s m₁ m₁' hm₁
termination_by structural fuel => fuel

theorem rel_branch : ∀ fuel code s m m', ρ.state m m' →
    ρ.rel m m' (evalBranch ctx fuel code s m)
      (evalBranch ctx' (extra + fuel) code s m')
  | 0, _, _, _, _, _ => by
    rw [evalBranch]
    exact ρ.exhausted
  | fuel + 1, code, s, m, m', hm => by
    rw [← Nat.add_assoc, evalBranch_eq_bind, evalBranch_eq_bind]
    exact ρ.bind (ρ.enterBranch hm code s) fun inner m₁ m₁' hm₁ =>
      rel_block fuel .nil code inner m₁ m₁' hm₁
termination_by structural fuel => fuel

theorem rel_call : ∀ fuel f args m m', ρ.state m m' →
    ρ.rel m m' (applyValue ctx fuel f args m)
      (applyValue ctx' (extra + fuel) f args m')
  | 0, _, _, _, _, _ => by
    rw [applyValue]
    exact ρ.exhausted
  | fuel + 1, f, args, m, m', hm => by
    rw [← Nat.add_assoc]
    match f with
    | .func c =>
      exact ρ.callFunction hm fuel c args fun s m₁ m₁' hm₁ => rel_block fuel .nil c.body s m₁ m₁' hm₁
    | .builtin name =>
      rw [applyValue, applyValue, ← ρ.builtins_eq]
      cases ctx.builtins.find? name with
      | some b => exact ρ.callBuiltin hm b args
      | none => exact ρ.settle hm _
    | .int _ | .bool _ | .str _ | .nil | .list _ | .returned _ =>
      rw [applyValue.eq_def, applyValue.eq_def]
      exact ρ.settle hm _
termination_by structural fuel => fuel

end

theorem rel_program (fuel : Nat) (code : Code) (s : ScopeId) (m m' : Machine)
    (hm : ρ.state m m') :
    ρ.rel m m' (evalProgram ctx fuel code s m) (evalProgram ctx' (extra + fuel) code s m') :=
  ρ.arrive (ρ.rel_block fuel .nil code s m m' hm)

end Lockstep

end Scriptlet
