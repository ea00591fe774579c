import Scriptlet.Proofs.Upkeep

/-!
# Evaluation without calls of functions

`walkExpr` and its companions evaluate code by going down into it and nowhere else: they need no
fuel, and have no outcome where a function would have to be called. Where they have one, evaluation
has the same, with as much fuel as the code has nodes.
-/

namespace Scriptlet

/-- Calls a value that is not a function. A function's body is not run: there is no outcome. -/
def Context.callNative (ctx : Context) (f : Value) (args : List Value) (m : Machine) : Outcome :=
  match f with
  | .func _ => none
  | .builtin name =>
    match ctx.builtins.find? name with
    | some b => m.callBuiltin ctx.sink b args
    | none => some (m.settle (.error (.notAFunction f)))
  | f => some (m.settle (.error (.notAFunction f)))

mutual

/-- Evaluates an expression in which no function gets called. -/
def walkExpr (ctx : Context) : Expr Nat → ScopeId → Machine → Outcome
  | .ident name, s, m => some (ctx.resolve name s m)
  | .int n, _, m => some (.int n, m)
  | .bool b, _, m => some (.bool b, m)
  | .str text, _, m => some (.str text, m)
  | .nil, _, m => some (.nil, m)
  | .list elements, s, m =>
    Outcomes.andThen (walkExprs ctx elements s m) fun vs m => some (m.newList vs)
  | .prefixOp op operand, s, m =>
    Outcome.andThen (walkExpr ctx operand s m) fun v m =>
    some (m.settle (op.apply m.lists v))
  | .infixOp .and left right, s, m =>
    Outcome.andThen (walkExpr ctx left s m) fun l m =>
    if l.truthy m.lists then
      Outcome.andThen (walkExpr ctx right s m) fun r m =>
      some (.bool (r.truthy m.lists), m)
    else some (.bool false, m)
  | .infixOp .or left right, s, m =>
    Outcome.andThen (walkExpr ctx left s m) fun l m =>
    if l.truthy m.lists then some (.bool true, m)
    else
      Outcome.andThen (walkExpr ctx right s m) fun r m =>
      some (.bool (r.truthy m.lists), m)
  | .infixOp op left right, s, m =>
    Outcome.andThen (walkExpr ctx left s m) fun l m =>
    Outcome.andThen (walkExpr ctx right s m) fun r m =>
    some (m.settle (op.apply m.lists l r))
  | .index target position, s, m =>
    Outcome.andThen (walkExpr ctx target s m) fun t m =>
    Outcome.andThen (walkExpr ctx position s m) fun p m =>
    some (m.settle (t.index m.lists p))
  | .cond condition consequence none, s, m =>
    Outcome.andThen (walkExpr ctx condition s m) fun c m =>
    if c.truthy m.lists then
      let (s, m) := ctx.enterBranch consequence s m
      walkBlock ctx .nil consequence s m
    else some (.nil, m)
  | .cond condition consequence (some alternative), s, m =>
    Outcome.andThen (walkExpr ctx condition s m) fun c m =>
    if c.truthy m.lists then
      let (s, m) := ctx.enterBranch consequence s m
      walkBlock ctx .nil consequence s m
    else
      let (s, m) := ctx.enterBranch alternative s m
      walkBlock ctx .nil alternative s m
  | .func label params body, s, m => some (.func ⟨label, params, body, s⟩, m)
  | .call callee arguments, s, m =>
    Outcome.andThen (walkExpr ctx callee s m) fun f m =>
    Outcomes.andThen (walkExprs ctx arguments s m) fun args m =>
    ctx.callNative f args m

def walkExprs (ctx : Context) : List (Expr Nat) → ScopeId → Machine → Outcomes
  | [], _, m => some (.ok [], m)
  | e :: es, s, m => Outcomes.cons (walkExpr ctx e s m) fun m => walkExprs ctx es s m

def walkStmt (ctx : Context) : Stmt Nat → ScopeId → Machine → Outcome
  | .expr e, s, m => walkExpr ctx e s m
  | .ret e, s, m => Outcome.andThen (walkExpr ctx e s m) fun v m => some (.returned v, m)
  | .var name e, s, m => Outcome.andThen (walkExpr ctx e s m) fun v m => some (v, m.bind s name v)

def walkBlock (ctx : Context) : Value → Code → ScopeId → Machine → Outcome
  | last, [], _, m => some (last, m)
  | _, st :: rest, s, m =>
    Outcome.andThen (walkStmt ctx st s m) fun v m => walkBlock ctx v rest s m

end

/-- Operators other than `and` and `or` evaluate both of their operands. -/
theorem walkExpr_infixOp {op : InfixOp} (hand : op ≠ .and) (hor : op ≠ .or) (ctx : Context)
    (left right : Expr Nat) (s : ScopeId) (m : Machine) :
    walkExpr ctx (.infixOp op left right) s m =
      Outcome.andThen (walkExpr ctx left s m) fun l m =>
      Outcome.andThen (walkExpr ctx right s m) fun r m =>
      some (m.settle (op.apply m.lists l r)) := by
  cases op with
  | and => exact absurd rfl hand
  | or => exact absurd rfl hor
  | _ => rw [walkExpr] <;> intro h <;> cases h

/-! ## Fuel -/

section

variable {ι : Type}

mutual

/-- How much fuel the nodes of an expression need, bodies of functions apart. -/
def Expr.weight : Expr ι → Nat
  | .ident _ | .int _ | .bool _ | .str _ | .nil | .func .. => 1
  | .list elements => exprsWeight elements + 1
  | .prefixOp _ operand => operand.weight + 1
  | .infixOp _ left right => left.weight + right.weight + 1
  | .index target position => target.weight + position.weight + 1
  | .cond condition consequence none => condition.weight + Block.weight consequence + 2
  | .cond condition consequence (some alternative) =>
    condition.weight + Block.weight consequence + Block.weight alternative + 2
  | .call callee arguments => callee.weight + exprsWeight arguments + 1

def exprsWeight : List (Expr ι) → Nat
  | [] => 1
  | e :: es => e.weight + exprsWeight es + 1

def Stmt.weight : Stmt ι → Nat
  | .var _ e => e.weight + 1
  | .ret e => e.weight + 1
  | .expr e => e.weight + 1

def Block.weight : Block ι → Nat
  | [] => 1
  | st :: rest => st.weight + Block.weight rest + 1

end

end

theorem Expr.weight_pos {ι : Type} (e : Expr ι) : 0 < e.weight := by
  cases e with
  | cond _ _ alternative => cases alternative <;> rw [Expr.weight] <;> omega
  | _ => rw [Expr.weight]; omega

def Agrees {α : Type} (o o' : Option α) : Prop :=
  ∀ r, o = some r → o' = some r

section

variable {α β : Type} {o o' : Option α}

theorem agrees_refl (o : Option α) : Agrees o o :=
  fun _ h => h

theorem agrees_none : Agrees none o' :=
  fun _ h => nomatch h

theorem Agrees.bind {next next' : α → Option β} (ho : Agrees o o')
    (hnext : ∀ r, Agrees (next r) (next' r)) : Agrees (o.bind next) (o'.bind next') := by
  intro r h
  obtain ⟨a, ha, hr⟩ := Option.bind_eq_some_iff.1 h
  rw [ho a ha, Option.bind_some]
  exact hnext a r hr

theorem Agrees.ite {c : Prop} [Decidable c] {p p' : Option α} (ho : Agrees o o')
    (hp : Agrees p p') : Agrees (if c then o else p) (if c then o' else p') := by
  split
  · exact ho
  · exact hp

end

section

variable {o o' : Outcome}

theorem Agrees.andThen {next next' : Value → Machine → Outcome} (ho : Agrees o o')
    (hnext : ∀ v m, Agrees (next v m) (next' v m)) :
    Agrees (Outcome.andThen o next) (Outcome.andThen o' next') := by
  rw [Outcome.andThen_eq_bind, Outcome.andThen_eq_bind]
  exact ho.bind fun r => .ite (agrees_refl _) (hnext r.1 r.2)

theorem Agrees.arrive (ho : Agrees o o') : Agrees (Outcome.arrive o) (Outcome.arrive o') := by
  rw [Outcome.arrive_eq_bind, Outcome.arrive_eq_bind]
  exact ho.bind fun r => agrees_refl _

theorem Agrees.allThen {o o' : Outcomes} {next next' : List Value → Machine → Outcome}
    (ho : Agrees o o') (hnext : ∀ vs m, Agrees (next vs m) (next' vs m)) :
    Agrees (Outcomes.andThen o next) (Outcomes.andThen o' next') := by
  rw [Outcomes.andThen_eq_bind, Outcomes.andThen_eq_bind]
  refine ho.bind fun r => ?_
  obtain ⟨_ | vs, m⟩ := r
  · exact agrees_refl _
  · exact hnext vs m

theorem Agrees.cons {rest rest' : Machine → Outcomes} (ho : Agrees o o')
    (hrest : ∀ m, Agrees (rest m) (rest' m)) :
    Agrees (Outcomes.cons o rest) (Outcomes.cons o' rest') := by
  rw [Outcomes.cons_eq_bind, Outcomes.cons_eq_bind]
  exact ho.bind fun r => .ite (agrees_refl _) ((hrest r.2).bind fun _ => agrees_refl _)

end

section

variable (ctx : Context)

theorem callNative_agrees (fuel : Nat) (f : Value) (args : List Value) (m : Machine) :
    Agrees (ctx.callNative f args m) (applyValue ctx (fuel + 1) f args m) := by
  cases f with
  | func => exact agrees_none
  | builtin name =>
    rw [applyValue]
    exact agrees_refl _
  | _ =>
    rw [applyValue.eq_def]
    exact agrees_refl _

/-- A branch takes one step more than its block. -/
theorem branch_agrees {fuel : Nat} {code : Code}
    (h : ∀ s m, Agrees (walkBlock ctx .nil code s m) (evalBlock ctx fuel .nil code s m))
    (s : ScopeId) (m : Machine) :
    Agrees (walkBlock ctx .nil code (ctx.enterBranch code s m).1 (ctx.enterBranch code s m).2)
      (evalBranch ctx (fuel + 1) code s m) := by
  rw [evalBranch]
  exact h _ _

mutual

/-- Where an expression has an outcome without calls of functions, it has that outcome. -/
theorem walkExpr_agrees : ∀ (e : Expr Nat) (fuel : Nat) (s : ScopeId) (m : Machine),
    e.weight ≤ fuel → Agrees (walkExpr ctx e s m) (evalExpr ctx fuel e s m)
  | e, 0, _, _, h => absurd h (Nat.not_le_of_gt e.weight_pos)
  | .ident _, fuel + 1, s, m, _ | .int _, fuel + 1, s, m, _ | .bool _, fuel + 1, s, m, _
  | .str _, fuel + 1, s, m, _ | .nil, fuel + 1, s, m, _ | .func .., fuel + 1, s, m, _ => by
    rw [walkExpr, evalExpr]
    exact agrees_refl _
  | .list elements, fuel + 1, s, m, h => by
    rw [Expr.weight] at h
    rw [walkExpr, evalExpr]
    exact (walkExprs_agrees elements fuel s m (by omega)).allThen fun _ _ => agrees_refl _
  | .prefixOp op operand, fuel + 1, s, m, h => by
    rw [Expr.weight] at h
    rw [walkExpr, evalExpr]
    exact (walkExpr_agrees operand fuel s m (by omega)).andThen fun _ _ => agrees_refl _
  | .infixOp op left right, fuel + 1, s, m, h => by
    rw [Expr.weight] at h
    have hleft := walkExpr_agrees left fuel s m (by omega)
    have hright (m : Machine) := walkExpr_agrees right fuel s m (by omega)
    by_cases hand : op = .and
    · subst hand
      rw [walkExpr, evalExpr]
      exact hleft.andThen fun l m₁ =>
        .ite ((hright m₁).andThen fun _ _ => agrees_refl _) (agrees_refl _)
    by_cases hor : op = .or
    · subst hor
      rw [walkExpr, evalExpr]
      exact hleft.andThen fun l m₁ =>
        .ite (agrees_refl _) ((hright m₁).andThen fun _ _ => agrees_refl _)
    rw [walkExpr_infixOp hand hor, evalExpr_infixOp hand hor]
    exact hleft.andThen fun l m₁ => (hright m₁).andThen fun _ _ => agrees_refl _
  | .index target position, fuel + 1, s, m, h => by
    rw [Expr.weight] at h
    rw [walkExpr, evalExpr]
    refine (walkExpr_agrees target fuel s m (by omega)).andThen fun t m₁ => ?_
    exact (walkExpr_agrees position fuel s m₁ (by omega)).andThen fun _ _ => agrees_refl _
  | .cond condition consequence none, fuel + 1, s, m, h => by
    rw [Expr.weight] at h
    rw [walkExpr, evalExpr]
    refine (walkExpr_agrees condition fuel s m (by omega)).andThen fun c m₁ => ?_
    obtain ⟨fuel, rfl⟩ := Nat.exists_eq_add_of_le' (show 1 ≤ fuel by omega)
    exact .ite (branch_agrees ctx (fun s m =>
      walkBlock_agrees consequence .nil fuel s m (by omega)) s m₁) (agrees_refl _)
  | .cond condition consequence (some alternative), fuel + 1, s, m, h => by
    rw [Expr.weight] at h
    rw [walkExpr, evalExpr]
    refine (walkExpr_agrees condition fuel s m (by omega)).andThen fun c m₁ => ?_
    obtain ⟨fuel, rfl⟩ := Nat.exists_eq_add_of_le' (show 1 ≤ fuel by omega)
    refine .ite (branch_agrees ctx (fun s m => ?_) s m₁) (branch_agrees ctx (fun s m => ?_) s m₁)
    · exact walkBlock_agrees consequence .nil fuel s m (by omega)
    · exact walkBlock_agrees alternative .nil fuel s m (by omega)
  | .call callee arguments, fuel + 1, s, m, h => by
    rw [Expr.weight] at h
    rw [walkExpr, evalExpr]
    refine (walkExpr_agrees callee fuel s m (by omega)).andThen fun f m₁ => ?_
    refine (walkExprs_agrees arguments fuel s m₁ (by omega)).allThen fun args m₂ => ?_
    have hcallee := callee.weight_pos
    obtain ⟨fuel, rfl⟩ := Nat.exists_eq_add_of_le' (show 1 ≤ fuel by omega)
    exact callNative_agrees ctx fuel f args m₂

theorem walkExprs_agrees : ∀ (es : List (Expr Nat)) (fuel : Nat) (s : ScopeId) (m : Machine),
    exprsWeight es ≤ fuel → Agrees (walkExprs ctx es s m) (evalExprs ctx fuel es s m)
  | [], 0, _, _, h | _ :: _, 0, _, _, h => by simp [exprsWeight] at h
  | [], fuel + 1, s, m, _ => by
    rw [walkExprs, evalExprs]
    exact agrees_refl _
  | e :: es, fuel + 1, s, m, h => by
    rw [exprsWeight] at h
    rw [walkExprs, evalExprs_cons]
    exact (walkExpr_agrees e fuel s m (by omega)).cons fun m₁ =>
      walkExprs_agrees es fuel s m₁ (by omega)

theorem walkStmt_agrees : ∀ (st : Stmt Nat) (fuel : Nat) (s : ScopeId) (m : Machine),
    st.weight ≤ fuel → Agrees (walkStmt ctx st s m) (evalStmt ctx fuel st s m)
  | .expr _, 0, _, _, h | .ret _, 0, _, _, h | .var .., 0, _, _, h => by simp [Stmt.weight] at h
  | .expr e, fuel + 1, s, m, h => by
    rw [Stmt.weight] at h
    rw [walkStmt, evalStmt]
    exact walkExpr_agrees e fuel s m (by omega)
  | .ret e, fuel + 1, s, m, h | .var _ e, fuel + 1, s, m, h => by
    rw [Stmt.weight] at h
    rw [walkStmt, evalStmt]
    exact (walkExpr_agrees e fuel s m (by omega)).andThen fun _ _ => agrees_refl _

theorem walkBlock_agrees : ∀ (code : Code) (last : Value) (fuel : Nat) (s : ScopeId) (m : Machine),
    Block.weight code ≤ fuel →
      Agrees (walkBlock ctx last code s m) (evalBlock ctx fuel last code s m)
  | [], _, 0, _, _, h | _ :: _, _, 0, _, _, h => by simp [Block.weight] at h
  | [], last, fuel + 1, s, m, _ => by
    rw [walkBlock, evalBlock]
    exact agrees_refl _
  | st :: rest, last, fuel + 1, s, m, h => by
    rw [Block.weight] at h
    rw [walkBlock, evalBlock]
    exact (walkStmt_agrees st fuel s m (by omega)).andThen fun v m₁ =>
      walkBlock_agrees rest v fuel s m₁ (by omega)

end

end

end Scriptlet
