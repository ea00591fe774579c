import Scriptlet.Proofs.Upkeep

/-!
# Other built-in functions

A run depends on its built-in functions only as far as it gets to call them. If all that it ever
comes across has a property, then another table of functions may take the place of its own that does
the same wherever everything has that property.
-/

namespace Scriptlet

/-- Two built-in functions do the same wherever all that they can look into has a property. -/
def Builtin.SameUnder (inv : Invariant) (b b' : Builtin) : Prop :=
  ∀ sink args store, store.Obeys inv →
    (∀ v ∈ args, inv.value store.scopes.size store.lists.size v) →
      b'.action sink args store = b.action sink args store

def Builtins.SameUnder (inv : Invariant) (builtins builtins' : Builtins) : Prop :=
  ∀ name, Option.Rel (Builtin.SameUnder inv) (builtins.find? name) (builtins'.find? name)

def Context.withBuiltins (ctx : Context) (builtins : Builtins) : Context :=
  { ctx with builtins }

/-! ## Steps -/

section

variable {inv : Invariant} {m : Machine}

theorem Outcome.Upholds.andThen_congr {o o' : Outcome} {next next' : Value → Machine → Outcome}
    (ho : o.Upholds inv m) (heq : o' = o) (hnext : ∀ v m₁, m.Grown m₁ → m₁.Obeys inv →
      m₁.Admits inv v → next' v m₁ = next v m₁) : o'.andThen next' = o.andThen next := by
  subst heq
  rcases o' with _ | ⟨v, m₁⟩
  · rfl
  have hv := ho v m₁ rfl
  cases v with
  | returned => rfl
  | _ => exact hnext _ m₁ hv.grown hv.obeys hv.admits

theorem Outcomes.Upholds.andThen_congr {o o' : Outcomes}
    {next next' : List Value → Machine → Outcome} (ho : o.Upholds inv m) (heq : o' = o)
    (hnext : ∀ vs m₁, m.Grown m₁ → m₁.Obeys inv → (∀ v ∈ vs, m₁.Admits inv v) →
      next' vs m₁ = next vs m₁) : o'.andThen next' = o.andThen next := by
  subst heq
  rcases o' with _ | ⟨_ | vs, m₁⟩
  · rfl
  · rfl
  · obtain ⟨hgrown, hobeys, hvs⟩ := ho _ m₁ rfl
    exact hnext vs m₁ hgrown hobeys hvs

theorem Outcome.Upholds.cons_congr {o o' : Outcome} {rest rest' : Machine → Outcomes}
    (ho : o.Upholds inv m) (heq : o' = o)
    (hrest : ∀ m₁, m.Grown m₁ → m₁.Obeys inv → rest' m₁ = rest m₁) :
    Outcomes.cons o' rest' = Outcomes.cons o rest := by
  subst heq
  rcases o' with _ | ⟨v, m₁⟩
  · rfl
  have hv := ho v m₁ rfl
  simp only [Outcomes.cons_eq_bind, Option.bind_some, hrest m₁ hv.grown hv.obeys]

end

namespace Builtins.SameUnder

variable {inv : Invariant} {ctx : Context} {builtins' : Builtins}

theorem refl (builtins : Builtins) : builtins.SameUnder inv builtins := by
  intro name
  cases builtins.find? name with
  | none => exact .none
  | some b => exact .some fun _ _ _ _ _ => rfl

theorem cons {b b' : Builtin} {table table' : List Builtin} (hname : b.name = b'.name)
    (hb : b.SameUnder inv b') (h : Builtins.SameUnder inv ⟨table⟩ ⟨table'⟩) :
    Builtins.SameUnder inv ⟨b :: table⟩ ⟨b' :: table'⟩ := by
  intro name
  have htable := h name
  simp only [Builtins.find?, List.find?_cons, hname] at htable ⊢
  split
  · exact .some hb
  · exact htable

theorem has_eq {builtins : Builtins} (h : builtins.SameUnder inv builtins') (name : String) :
    builtins'.has name = builtins.has name := by
  have hname := h name
  simp only [Builtins.has]
  generalize builtins.find? name = o, builtins'.find? name = o' at hname ⊢
  cases hname <;> rfl

theorem resolve_eq (h : ctx.builtins.SameUnder inv builtins') (name : String) (s : ScopeId)
    (m : Machine) : (ctx.withBuiltins builtins').resolve name s m = ctx.resolve name s m := by
  simp only [Context.resolve, Context.withBuiltins, h.has_eq]

theorem callBuiltin_eq {b b' : Builtin} (h : b.SameUnder inv b') {m : Machine} (hm : m.Obeys inv)
    (sink : Sink) {args : List Value} (hargs : ∀ v ∈ args, m.Admits inv v) :
    m.callBuiltin sink b' args = m.callBuiltin sink b args := by
  rw [Machine.callBuiltin, Machine.callBuiltin,
    h sink args m.store ⟨hm.bound, hm.outer, hm.listed⟩ hargs]

/-! ## Evaluation -/

mutual

theorem evalExpr_eq (hb : ctx.builtins.Respect inv) (h : ctx.builtins.SameUnder inv builtins') :
    ∀ fuel e s m, m.Obeys inv → s < m.scopes.size →
      evalExpr (ctx.withBuiltins builtins') fuel e s m = evalExpr ctx fuel e s m
  | 0, _, _, _, _, _ => by
    rw [evalExpr, evalExpr]
  | fuel + 1, e, s, m, hm, hs => by
    have expr := evalExpr_eq hb h fuel
    have exprs := evalExprs_eq hb h fuel
    have branch := evalBranch_eq hb h fuel
    have kept (e : Expr Nat) := evalExpr_upholds hb fuel e s
    have allKept (es : List (Expr Nat)) := evalExprs_upholds hb fuel es s
    match e with
    | .ident name =>
      rw [evalExpr, evalExpr, h.resolve_eq]
    | .int _ | .bool _ | .str _ | .nil | .func .. =>
      rw [evalExpr, evalExpr]
    | .list elements =>
      rw [evalExpr, evalExpr]
      exact (allKept elements m hm hs).andThen_congr (exprs elements s m hm hs) fun _ _ _ _ _ => rfl
    | .prefixOp op operand =>
      rw [evalExpr, evalExpr]
      exact (kept operand m hm hs).andThen_congr (expr operand s m hm hs) fun _ _ _ _ _ => rfl
    | .infixOp op left right =>
      have hleft := expr left s m hm hs
      -- `and` and `or` may do without their right operand
      by_cases hand : op = .and
      · subst hand
        rw [evalExpr, evalExpr]
        refine (kept left m hm hs).andThen_congr hleft fun l m₁ hm₁ h₁ _ => ?_
        rw [expr right s m₁ h₁ (Nat.lt_of_lt_of_le hs hm₁.scopes)]
      · by_cases hor : op = .or
        · subst hor
          rw [evalExpr, evalExpr]
          refine (kept left m hm hs).andThen_congr hleft fun l m₁ hm₁ h₁ _ => ?_
          rw [expr right s m₁ h₁ (Nat.lt_of_lt_of_le hs hm₁.scopes)]
        · rw [evalExpr_infixOp hand hor, evalExpr_infixOp hand hor]
          refine (kept left m hm hs).andThen_congr hleft fun l m₁ hm₁ h₁ _ => ?_
          rw [expr right s m₁ h₁ (Nat.lt_of_lt_of_le hs hm₁.scopes)]
    | .index target position =>
      rw [evalExpr, evalExpr]
      refine (kept target m hm hs).andThen_congr (expr target s m hm hs) fun t m₁ hm₁ h₁ _ => ?_
      rw [expr position s m₁ h₁ (Nat.lt_of_lt_of_le hs hm₁.scopes)]
    | .cond condition consequence alternative =>
      rw [evalExpr, evalExpr]
      refine (kept condition m hm hs).andThen_congr (expr condition s m hm hs)
        fun c m₁ hm₁ h₁ _ => ?_
      have hbranch (code : Code) := branch code s m₁ h₁ (Nat.lt_of_lt_of_le hs hm₁.scopes)
      simp only [hbranch]
    | .call callee arguments =>
      rw [evalExpr, evalExpr]
      refine (kept callee m hm hs).andThen_congr (expr callee s m hm hs) fun f m₁ hm₁ h₁ hf => ?_
      have hs₁ := Nat.lt_of_lt_of_le hs hm₁.scopes
      exact (allKept arguments m₁ h₁ hs₁).andThen_congr (exprs arguments s m₁ h₁ hs₁)
        fun args m₂ hm₂ h₂ hargs => applyValue_eq hb h fuel f args m₂ h₂ (hf.mono hm₂) hargs
termination_by structural fuel => fuel

theorem evalExprs_eq (hb : ctx.builtins.Respect inv) (h : ctx.builtins.SameUnder inv builtins') :
    ∀ fuel es s m, m.Obeys inv → s < m.scopes.size →
      evalExprs (ctx.withBuiltins builtins') fuel es s m = evalExprs ctx fuel es s m
  | 0, _, _, _, _, _ => by
    rw [evalExprs, evalExprs]
  | fuel + 1, [], _, _, _, _ => by
    rw [evalExprs, evalExprs]
  | fuel + 1, e :: es, s, m, hm, hs => by
    rw [evalExprs_cons, evalExprs_cons]
    exact (evalExpr_upholds hb fuel e s m hm hs).cons_congr (evalExpr_eq hb h fuel e s m hm hs)
      fun m₁ hm₁ h₁ => evalExprs_eq hb h fuel es s m₁ h₁ (Nat.lt_of_lt_of_le hs hm₁.scopes)
termination_by structural fuel => fuel

theorem evalStmt_eq (hb : ctx.builtins.Respect inv) (h : ctx.builtins.SameUnder inv builtins') :
    ∀ fuel st s m, m.Obeys inv → s < m.scopes.size →
      evalStmt (ctx.withBuiltins builtins') fuel st s m = evalStmt ctx fuel st s m
  | 0, _, _, _, _, _ => by
    rw [evalStmt, evalStmt]
  | fuel + 1, .expr e, s, m, hm, hs | fuel + 1, .ret e, s, m, hm, hs
  | fuel + 1, .var _ e, s, m, hm, hs => by
    rw [evalStmt, evalStmt, evalExpr_eq hb h fuel e s m hm hs]
termination_by structural fuel => fuel

theorem evalBlock_eq (hb : ctx.builtins.Respect inv) (h : ctx.builtins.SameUnder inv builtins') :
    ∀ fuel last code s m, m.Obeys inv → s < m.scopes.size →
      evalBlock (ctx.withBuiltins builtins') fuel last code s m = evalBlock ctx fuel last code s m
  | 0, _, _, _, _, _, _ => by
    rw [evalBlock, evalBlock]
  | fuel + 1, _, [], _, _, _, _ => by
    rw [evalBlock, evalBlock]
  | fuel + 1, _, st :: rest, s, m, hm, hs => by
    rw [evalBlock, evalBlock]
    exact (evalStmt_upholds hb fuel st s m hm hs).andThen_congr (evalStmt_eq hb h fuel st s m hm hs)
      fun v m₁ hm₁ h₁ _ => evalBlock_eq hb h fuel v rest s m₁ h₁ (Nat.lt_of_lt_of_le hs hm₁.scopes)
termination_by structural fuel => fuel

theorem evalBranch_eq (hb : ctx.builtins.Respect inv) (h : ctx.builtins.SameUnder inv builtins') :
    ∀ fuel code s m, m.Obeys inv → s < m.scopes.size →
      evalBranch (ctx.withBuiltins builtins') fuel code s m = evalBranch ctx fuel code s m
  | 0, _, _, _, _, _ => by
    rw [evalBranch, evalBranch]
  | fuel + 1, code, s, m, hm, hs => by
    rw [evalBranch, evalBranch]
    obtain ⟨-, hinner, hs'⟩ := hm.enterBranch ctx code hs
    exact evalBlock_eq hb h fuel .nil code _ _ hinner hs'
termination_by structural fuel => fuel

theorem applyValue_eq (hb : ctx.builtins.Respect inv)
    (h : ctx.builtins.SameUnder inv builtins') :
    ∀ fuel f args m, m.Obeys inv → m.Admits inv f → (∀ v ∈ args, m.Admits inv v) →
      applyValue (ctx.withBuiltins builtins') fuel f args m = applyValue ctx fuel f args m
  | 0, _, _, _, _, _, _ => by
    rw [applyValue, applyValue]
  | fuel + 1, f, args, m, hm, hf, hargs => by
    match f with
    | .func c =>
      obtain ⟨-, hinner, hs⟩ := hm.enter hf hargs
      rw [applyValue_func, applyValue_func,
        evalBlock_eq hb h fuel .nil c.body (m.enter c args).1 (m.enter c args).2 hinner hs]
      rfl
    | .builtin name =>
      have hname := h name
      rw [applyValue, applyValue]
      simp only [Context.withBuiltins]
      generalize ctx.builtins.find? name = o, builtins'.find? name = o' at hname ⊢
      cases hname with
      | none => rfl
      | some hsame => exact callBuiltin_eq hsame hm ctx.sink hargs
    | .int _ | .bool _ | .str _ | .nil | .list _ | .returned _ =>
      rw [applyValue.eq_def, applyValue.eq_def]
termination_by structural fuel => fuel

end

end Builtins.SameUnder

end Scriptlet
