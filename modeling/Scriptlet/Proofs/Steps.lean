import Scriptlet.Proofs.Upkeep

/-!
# The steps of a run

A run changes the state step by step: it notes a fault, binds a name, adds a scope, makes a list or
calls a built-in function. Between two steps it only looks. Here are the steps that evaluation takes,
one after the other, so that one can speak of any moment of a run, also of one that does not end.
Done in order they lead to the state that evaluation ends in.
-/

namespace Scriptlet

inductive Step where
  | note (fault : Fault)
  | bind (s : ScopeId) (name : String) (v : Value)
  | enclose (outer : ScopeId) (bindings : Bindings)
  | newList (elements : List Value)
  | call (sink : Sink) (b : Builtin) (args : List Value)

namespace Step

/-- Takes a step. A call that does not end leads nowhere. -/
def apply (m : Machine) : Step → Machine
  | note fault => m.note fault
  | bind s name v => m.bind s name v
  | enclose outer bindings => (m.enclose outer bindings).2
  | newList elements => (m.newList elements).2
  | call sink b args =>
    match m.callBuiltin sink b args with
    | some (_, after) => after
    | none => m

def From (builtins : Builtins) : Step → Prop
  | call _ b _ => b ∈ builtins.table
  | _ => True

def ofResult : Except Fault Value → List Step
  | .ok _ => []
  | .error fault => [note fault]

end Step

def Machine.after (m : Machine) (steps : List Step) : Machine :=
  steps.foldl Step.apply m

/-! ## The steps of an evaluation -/

/-- The steps behind others, if those came to an end. -/
def following {α : Type} (o : Option (α × Machine)) (next : α → Machine → List Step) : List Step :=
  match o with
  | none => []
  | some (v, m) => next v m

def Outcome.following (o : Outcome) (next : Value → Machine → List Step) : List Step :=
  Scriptlet.following o fun v m => if v.isReturned then [] else next v m

def Outcomes.following (o : Outcomes) (next : List Value → Machine → List Step) : List Step :=
  Scriptlet.following o fun r m =>
    match r with
    | .error _ => []
    | .ok vs => next vs m

namespace Context

def resolveSteps (ctx : Context) (name : String) (s : ScopeId) (m : Machine) : List Step :=
  if ctx.builtins.has name then []
  else
    match m.scopes.get? s name, ctx.options.unsetNames with
    | some _, _ => []
    | none, .vivify => [.note (.unbound name), .bind (m.scopes.root s) name .nil]
    | none, .nil => [.note (.unbound name)]

def branchSteps (ctx : Context) (branch : Code) (s : ScopeId) : List Step :=
  if ctx.ownScope branch then [.enclose s []] else []

end Context

def Closure.enterSteps (c : Closure) (args : List Value) : List Step :=
  (c.arityFault? args.length).toList.map .note ++
    [.enclose c.scope (Bindings.bindParams [] c.params args)]

mutual

/-- The steps of an expression. -/
def stepsExpr (ctx : Context) (fuel : Nat) (e : Expr Nat) (s : ScopeId) (m : Machine) : List Step :=
  match fuel with
  | 0 => []
  | fuel + 1 =>
    match e with
    | .ident name => ctx.resolveSteps name s m
    | .int _ | .bool _ | .str _ | .nil | .func _ _ _ => []
    | .list elements =>
      stepsExprs ctx fuel elements s m ++
      Outcomes.following (evalExprs ctx fuel elements s m) fun vs _ => [.newList vs]
    | .prefixOp op operand =>
      stepsExpr ctx fuel operand s m ++
      Outcome.following (evalExpr ctx fuel operand s m) fun v m => Step.ofResult (op.apply m.lists v)
    | .infixOp .and left right =>
      stepsExpr ctx fuel left s m ++
      Outcome.following (evalExpr ctx fuel left s m) fun l m =>
      if l.truthy m.lists then stepsExpr ctx fuel right s m else []
    | .infixOp .or left right =>
      stepsExpr ctx fuel left s m ++
      Outcome.following (evalExpr ctx fuel left s m) fun l m =>
      if l.truthy m.lists then [] else stepsExpr ctx fuel right s m
    | .infixOp op left right =>
      stepsExpr ctx fuel left s m ++
      Outcome.following (evalExpr ctx fuel left s m) fun l m =>
      stepsExpr ctx fuel right s m ++
      Outcome.following (evalExpr ctx fuel right s m) fun r m => Step.ofResult (op.apply m.lists l r)
    | .index target position =>
      stepsExpr ctx fuel target s m ++
      Outcome.following (evalExpr ctx fuel target s m) fun t m =>
      stepsExpr ctx fuel position s m ++
      Outcome.following (evalExpr ctx fuel position s m) fun p m => Step.ofResult (t.index m.lists p)
    | .cond condition consequence alternative =>
      stepsExpr ctx fuel condition s m ++
      Outcome.following (evalExpr ctx fuel condition s m) fun c m =>
      if c.truthy m.lists then stepsBranch ctx fuel consequence s m
      else
        match alternative with
        | some branch => stepsBranch ctx fuel branch s m
        | none => []
    | .call callee arguments =>
      stepsExpr ctx fuel callee s m ++
      Outcome.following (evalExpr ctx fuel callee s m) fun f m =>
      stepsExprs ctx fuel arguments s m ++
      Outcomes.following (evalExprs ctx fuel arguments s m) fun args m =>
      stepsCall ctx fuel f args m

def stepsExprs (ctx : Context) (fuel : Nat) (es : List (Expr Nat)) (s : ScopeId) (m : Machine) :
    List Step :=
  match fuel with
  | 0 => []
  | fuel + 1 =>
    match es with
    | [] => []
    | e :: es =>
      stepsExpr ctx fuel e s m ++
      Outcome.following (evalExpr ctx fuel e s m) fun _ m => stepsExprs ctx fuel es s m

def stepsStmt (ctx : Context) (fuel : Nat) (st : Stmt Nat) (s : ScopeId) (m : Machine) :
    List Step :=
  match fuel with
  | 0 => []
  | fuel + 1 =>
    match st with
    | .expr e => stepsExpr ctx fuel e s m
    | .ret e => stepsExpr ctx fuel e s m
    | .var name e =>
      stepsExpr ctx fuel e s m ++
      Outcome.following (evalExpr ctx fuel e s m) fun v _ => [.bind s name v]

def stepsBlock (ctx : Context) (fuel : Nat) (block : Code) (s : ScopeId) (m : Machine) :
    List Step :=
  match fuel with
  | 0 => []
  | fuel + 1 =>
    match block with
    | [] => []
    | st :: rest =>
      stepsStmt ctx fuel st s m ++
      Outcome.following (evalStmt ctx fuel st s m) fun _ m => stepsBlock ctx fuel rest s m

def stepsBranch (ctx : Context) (fuel : Nat) (branch : Code) (s : ScopeId) (m : Machine) :
    List Step :=
  match fuel with
  | 0 => []
  | fuel + 1 =>
    let (inner, m) := ctx.enterBranch branch s m
    ctx.branchSteps branch s ++ stepsBlock ctx fuel branch inner m

def stepsCall (ctx : Context) (fuel : Nat) (f : Value) (args : List Value) (m : Machine) :
    List Step :=
  match fuel with
  | 0 => []
  | fuel + 1 =>
    match f with
    | .func c =>
      match ctx.refusal? c args.length with
      | some fault => [.note fault]
      | none =>
        let (inner, m) := m.enter c args
        c.enterSteps args ++ stepsBlock ctx fuel c.body inner m
    | .builtin name =>
      match ctx.builtins.find? name with
      | some b => [.call ctx.sink b args]
      | none => [.note (.notAFunction f)]
    | f => [.note (.notAFunction f)]

end

theorem stepsExpr_infixOp {op : InfixOp} (hand : op ≠ .and) (hor : op ≠ .or) (ctx : Context)
    (fuel : Nat) (left right : Expr Nat) (s : ScopeId) (m : Machine) :
    stepsExpr ctx (fuel + 1) (.infixOp op left right) s m =
      stepsExpr ctx fuel left s m ++
      Outcome.following (evalExpr ctx fuel left s m) fun l m =>
      stepsExpr ctx fuel right s m ++
      Outcome.following (evalExpr ctx fuel right s m) fun r m =>
      Step.ofResult (op.apply m.lists l r) := by
  cases op with
  | and => exact absurd rfl hand
  | or => exact absurd rfl hor
  | _ => rw [stepsExpr] <;> intro h <;> cases h

/-! ## Where the steps lead -/

/-- What an evaluation does from a state, and what it does with more fuel. If it ends, its steps lead
to the state that it ends in, and it does the same with more fuel. If it does not, it goes on behind
its steps. -/
structure Takes {α : Type} (builtins : Builtins) (m : Machine) (o o' : Option (α × Machine))
    (steps steps' : List Step) : Prop where
  from_table : ∀ step ∈ steps, step.From builtins
  leads : ∀ r, o = some r → m.after steps = r.2
  begins : steps <+: steps'
  ended : ∀ r, o = some r → o' = some r ∧ steps' = steps

theorem Machine.after_append (m : Machine) (steps later : List Step) :
    m.after (steps ++ later) = (m.after steps).after later :=
  List.foldl_append

section

variable {α β : Type} {builtins : Builtins} {m : Machine} {steps steps' : List Step}

theorem takes_exhausted {o' : Option (α × Machine)} : Takes builtins m none o' [] steps' where
  from_table _ h := (List.not_mem_nil h).elim
  leads _ h := nomatch h
  begins := List.nil_prefix
  ended _ h := nomatch h

theorem takes_some {r : α × Machine} (hfrom : ∀ step ∈ steps, step.From builtins)
    (h : m.after steps = r.2) : Takes builtins m (some r) (some r) steps steps where
  from_table := hfrom
  leads _ hr := Option.some.inj hr ▸ h
  begins := List.prefix_rfl
  ended _ hr := ⟨hr, rfl⟩

theorem takes_value (v : α) : Takes builtins m (some (v, m)) (some (v, m)) [] [] :=
  takes_some (fun _ h => (List.not_mem_nil h).elim) rfl

/-- One step. -/
theorem takes_step {r : α × Machine} {step : Step} (hfrom : step.From builtins)
    (h : step.apply m = r.2) : Takes builtins m (some r) (some r) [step] [step] :=
  takes_some (fun _ hmem => List.mem_singleton.1 hmem ▸ hfrom) h

theorem takes_call {b : Builtin} (hb : b ∈ builtins.table) (sink : Sink) (args : List Value) :
    Takes builtins m (m.callBuiltin sink b args) (m.callBuiltin sink b args) [.call sink b args]
      [.call sink b args] where
  from_table _ hmem := List.mem_singleton.1 hmem ▸ hb
  leads r hr := by simp only [Machine.after, List.foldl_cons, List.foldl_nil, Step.apply, hr]
  begins := List.prefix_rfl
  ended _ hr := ⟨hr, rfl⟩

theorem Takes.ite {c : Prop} [Decidable c] {o₁ o₁' o₂ o₂' : Option (α × Machine)}
    {steps₁ steps₁' steps₂ steps₂' : List Step} (h₁ : Takes builtins m o₁ o₁' steps₁ steps₁')
    (h₂ : Takes builtins m o₂ o₂' steps₂ steps₂') :
    Takes builtins m (if c then o₁ else o₂) (if c then o₁' else o₂')
      (if c then steps₁ else steps₂) (if c then steps₁' else steps₂') := by
  split
  · exact h₁
  · exact h₂

/-- Steps behind those that led to a state. -/
theorem Takes.behind {o o' : Option (α × Machine)} {first : List Step}
    (hfrom : ∀ step ∈ first, step.From builtins)
    (h : Takes builtins (m.after first) o o' steps steps') :
    Takes builtins m o o' (first ++ steps) (first ++ steps') where
  from_table step hstep := (List.mem_append.1 hstep).elim (hfrom step) (h.from_table step)
  leads r hr := by rw [Machine.after_append, h.leads r hr]
  begins := (List.prefix_append_right_inj first).2 h.begins
  ended r hr := ⟨(h.ended r hr).1, congrArg (first ++ ·) (h.ended r hr).2⟩

theorem Takes.bind {o o' : Option (α × Machine)} {next next' : α × Machine → Option (β × Machine)}
    {rest rest' : α → Machine → List Step} (ho : Takes builtins m o o' steps steps')
    (hnext : ∀ v m₁, Takes builtins m₁ (next (v, m₁)) (next' (v, m₁)) (rest v m₁) (rest' v m₁)) :
    Takes builtins m (o.bind next) (o'.bind next') (steps ++ following o rest)
      (steps' ++ following o' rest') := by
  rcases o with _ | ⟨v, m₁⟩
  · rw [following, List.append_nil]
    exact ⟨ho.from_table, fun _ h => (nomatch h), ho.begins.trans (List.prefix_append ..),
      fun _ h => (nomatch h)⟩
  · obtain ⟨rfl, rfl⟩ := ho.ended _ rfl
    exact .behind ho.from_table (ho.leads _ rfl ▸ hnext v m₁)

/-- Steps in a scope that others have entered. -/
theorem Takes.enter {r : ScopeId × Machine} {o o' : Outcome} {first : List Step}
    (hr : Takes builtins m (some r) (some r) first first)
    (ho : Takes builtins r.2 o o' steps steps') :
    Takes builtins m o o' (first ++ steps) (first ++ steps') :=
  .behind hr.from_table (hr.leads r rfl ▸ ho)

/-- Steps that are followed by none. -/
theorem Takes.map {o o' : Option (α × Machine)} (f : α × Machine → β)
    (ho : Takes builtins m o o' steps steps') :
    Takes builtins m (o.bind fun r => some (f r, r.2)) (o'.bind fun r => some (f r, r.2))
      steps steps' := by
  rcases o with _ | r
  · exact ⟨ho.from_table, fun _ h => (nomatch h), ho.begins, fun _ h => (nomatch h)⟩
  · obtain ⟨rfl, rfl⟩ := ho.ended _ rfl
    exact takes_some ho.from_table (ho.leads r rfl)

theorem Takes.andThen {o o' : Outcome} {next next' : Value → Machine → Outcome}
    {rest rest' : Value → Machine → List Step} (ho : Takes builtins m o o' steps steps')
    (hnext : ∀ v m₁, Takes builtins m₁ (next v m₁) (next' v m₁) (rest v m₁) (rest' v m₁)) :
    Takes builtins m (o.andThen next) (o'.andThen next') (steps ++ o.following rest)
      (steps' ++ o'.following rest') := by
  rw [Outcome.andThen_eq_bind, Outcome.andThen_eq_bind, Outcome.following, Outcome.following]
  exact ho.bind fun v m₁ => (takes_value v).ite (hnext v m₁)

/-- Steps to a value from which another is read off. -/
theorem Takes.andThenValue {o o' : Outcome} (f : Value → Machine → Value)
    (ho : Takes builtins m o o' steps steps') :
    Takes builtins m (o.andThen fun v m₁ => some (f v m₁, m₁))
      (o'.andThen fun v m₁ => some (f v m₁, m₁)) steps steps' := by
  have hmap (o : Outcome) : (o.andThen fun v m₁ => some (f v m₁, m₁)) =
      o.bind fun r => some (if r.1.isReturned then r.1 else f r.1 r.2, r.2) := by
    rw [Outcome.andThen_eq_bind]
    congr
    funext r
    split <;> rfl
  rw [hmap, hmap]
  exact ho.map _

theorem Takes.allThen {o o' : Outcomes} {next next' : List Value → Machine → Outcome}
    {rest rest' : List Value → Machine → List Step} (ho : Takes builtins m o o' steps steps')
    (hnext : ∀ vs m₁, Takes builtins m₁ (next vs m₁) (next' vs m₁) (rest vs m₁) (rest' vs m₁)) :
    Takes builtins m (o.andThen next) (o'.andThen next') (steps ++ o.following rest)
      (steps' ++ o'.following rest') := by
  rw [Outcomes.andThen_eq_bind, Outcomes.andThen_eq_bind, Outcomes.following, Outcomes.following]
  refine ho.bind fun r m₁ => ?_
  cases r with
  | error v => exact takes_value v
  | ok vs => exact hnext vs m₁

theorem Takes.cons {o o' : Outcome} {rest rest' : Machine → Outcomes}
    {later later' : Machine → List Step} (ho : Takes builtins m o o' steps steps')
    (hrest : ∀ m₁, Takes builtins m₁ (rest m₁) (rest' m₁) (later m₁) (later' m₁)) :
    Takes builtins m (Outcomes.cons o rest) (Outcomes.cons o' rest')
      (steps ++ o.following fun _ m₁ => later m₁) (steps' ++ o'.following fun _ m₁ => later' m₁) := by
  rw [Outcomes.cons_eq_bind, Outcomes.cons_eq_bind, Outcome.following, Outcome.following]
  exact ho.bind fun v m₁ => (takes_value _).ite ((hrest m₁).map _)

theorem Takes.arrive {o o' : Outcome} (ho : Takes builtins m o o' steps steps') :
    Takes builtins m o.arrive o'.arrive steps steps' := by
  rw [Outcome.arrive_eq_bind, Outcome.arrive_eq_bind]
  exact ho.map fun r => r.1.arrived

/-- Noting a fault and what is done then. -/
theorem Takes.noted {o o' : Option (α × Machine)} {fault : Fault}
    (h : Takes builtins (m.note fault) o o' steps steps') :
    Takes builtins m o o' (.note fault :: steps) (.note fault :: steps') := by
  have hfrom : ∀ step ∈ [Step.note fault], step.From builtins := fun _ hstep =>
    List.mem_singleton.1 hstep ▸ trivial
  exact .behind hfrom h

theorem takes_settle (r : Except Fault Value) :
    Takes builtins m (some (m.settle r)) (some (m.settle r)) (Step.ofResult r) (Step.ofResult r) := by
  cases r with
  | ok v => exact takes_value v
  | error fault => exact .noted (takes_value Value.nil)

theorem takes_resolve (ctx : Context) (name : String) (s : ScopeId) :
    Takes builtins m (some (ctx.resolve name s m)) (some (ctx.resolve name s m))
      (ctx.resolveSteps name s m) (ctx.resolveSteps name s m) := by
  by_cases hb : ctx.builtins.has name = true
  · rw [Context.resolve_of_builtin hb, Context.resolveSteps, if_pos hb]
    exact takes_value _
  rw [Context.resolveSteps, if_neg hb]
  cases hv : m.scopes.get? s name with
  | some v =>
    rw [Context.resolve_of_get? hb hv]
    exact takes_value v
  | none =>
    cases hunset : ctx.options.unsetNames with
    | vivify =>
      rw [Context.resolve_of_vivify hb hv hunset]
      exact .noted (takes_step trivial rfl)
    | nil =>
      rw [Context.resolve_of_nil hb hv hunset]
      exact .noted (takes_value Value.nil)

theorem takes_enterBranch (ctx : Context) (code : Code) (s : ScopeId) :
    Takes builtins m (some (ctx.enterBranch code s m)) (some (ctx.enterBranch code s m))
      (ctx.branchSteps code s) (ctx.branchSteps code s) := by
  by_cases hown : ctx.ownScope code = true
  · rw [Context.enterBranch_of_own hown, Context.branchSteps, if_pos hown]
    exact takes_step trivial rfl
  · rw [Context.enterBranch_of_not_own hown, Context.branchSteps, if_neg hown]
    exact takes_value s

theorem takes_enter (c : Closure) (args : List Value) :
    Takes builtins m (some (m.enter c args)) (some (m.enter c args)) (c.enterSteps args)
      (c.enterSteps args) := by
  cases hfault : c.arityFault? args.length with
  | none =>
    simp only [Machine.enter, Closure.enterSteps, hfault]
    exact takes_step trivial rfl
  | some fault =>
    simp only [Machine.enter, Closure.enterSteps, hfault]
    exact .noted (takes_step trivial rfl)

end

/-! ## The evaluator, part by part -/

section

variable {ctx : Context}

mutual

/-- What an expression does, and what it does with more fuel. -/
theorem evalExpr_takes (extra : Nat) : ∀ fuel e s m,
    Takes ctx.builtins m (evalExpr ctx fuel e s m) (evalExpr ctx (extra + fuel) e s m)
      (stepsExpr ctx fuel e s m) (stepsExpr ctx (extra + fuel) e s m)
  | 0, _, _, _ => by
    rw [evalExpr, stepsExpr]
    exact takes_exhausted
  | fuel + 1, e, s, m => by
    have expr := evalExpr_takes extra fuel
    have exprs := evalExprs_takes extra fuel
    have branch := evalBranch_takes extra fuel
    rw [← Nat.add_assoc]
    match e with
    | .ident name =>
      rw [evalExpr, evalExpr, stepsExpr, stepsExpr]
      exact takes_resolve ctx name s
    | .int _ | .bool _ | .str _ | .nil | .func _ _ _ =>
      rw [evalExpr, evalExpr, stepsExpr, stepsExpr]
      exact takes_value _
    | .list elements =>
      rw [evalExpr, evalExpr, stepsExpr, stepsExpr]
      exact (exprs elements s m).allThen fun vs m₁ => takes_step trivial rfl
    | .prefixOp op operand =>
      rw [evalExpr, evalExpr, stepsExpr, stepsExpr]
      exact (expr operand s m).andThen fun v m₁ => takes_settle _
    | .infixOp op left right =>
      -- `and` and `or` may do without their right operand
      by_cases hand : op = .and
      · subst hand
        rw [evalExpr, evalExpr, stepsExpr, stepsExpr]
        exact (expr left s m).andThen fun l m₁ =>
          ((expr right s m₁).andThenValue fun r m₂ => .bool (r.truthy m₂.lists)).ite (takes_value _)
      · by_cases hor : op = .or
        · subst hor
          rw [evalExpr, evalExpr, stepsExpr, stepsExpr]
          exact (expr left s m).andThen fun l m₁ =>
            (takes_value _).ite ((expr right s m₁).andThenValue fun r m₂ => .bool (r.truthy m₂.lists))
        · rw [evalExpr_infixOp hand hor, evalExpr_infixOp hand hor, stepsExpr_infixOp hand hor,
            stepsExpr_infixOp hand hor]
          exact (expr left s m).andThen fun l m₁ =>
            (expr right s m₁).andThen fun r m₂ => takes_settle _
    | .index target position =>
      rw [evalExpr, evalExpr, stepsExpr, stepsExpr]
      exact (expr target s m).andThen fun t m₁ =>
        (expr position s m₁).andThen fun p m₂ => takes_settle _
    | .cond condition consequence alternative =>
      rw [evalExpr, evalExpr, stepsExpr, stepsExpr]
      refine (expr condition s m).andThen fun c m₁ => (branch consequence s m₁).ite ?_
      cases alternative with
      | some code => exact branch code s m₁
      | none => exact takes_value _
    | .call callee arguments =>
      rw [evalExpr, evalExpr, stepsExpr, stepsExpr]
      exact (expr callee s m).andThen fun f m₁ =>
        (exprs arguments s m₁).allThen fun args m₂ => applyValue_takes extra fuel f args m₂
termination_by structural fuel => fuel

theorem evalExprs_takes (extra : Nat) : ∀ fuel es s m,
    Takes ctx.builtins m (evalExprs ctx fuel es s m) (evalExprs ctx (extra + fuel) es s m)
      (stepsExprs ctx fuel es s m) (stepsExprs ctx (extra + fuel) es s m)
  | 0, _, _, _ => by
    rw [evalExprs, stepsExprs]
    exact takes_exhausted
  | fuel + 1, [], s, m => by
    rw [← Nat.add_assoc, evalExprs, evalExprs, stepsExprs, stepsExprs]
    exact takes_value _
  | fuel + 1, e :: es, s, m => by
    rw [← Nat.add_assoc, evalExprs_cons, evalExprs_cons, stepsExprs, stepsExprs]
    exact (evalExpr_takes extra fuel e s m).cons fun m₁ => evalExprs_takes extra fuel es s m₁
termination_by structural fuel => fuel

theorem evalStmt_takes (extra : Nat) : ∀ fuel st s m,
    Takes ctx.builtins m (evalStmt ctx fuel st s m) (evalStmt ctx (extra + fuel) st s m)
      (stepsStmt ctx fuel st s m) (stepsStmt ctx (extra + fuel) st s m)
  | 0, _, _, _ => by
    rw [evalStmt, stepsStmt]
    exact takes_exhausted
  | fuel + 1, .expr e, s, m => by
    rw [← Nat.add_assoc, evalStmt, evalStmt, stepsStmt, stepsStmt]
    exact evalExpr_takes extra fuel e s m
  | fuel + 1, .ret e, s, m => by
    rw [← Nat.add_assoc, evalStmt, evalStmt, stepsStmt, stepsStmt]
    exact (evalExpr_takes extra fuel e s m).andThenValue fun v _ => .returned v
  | fuel + 1, .var name e, s, m => by
    rw [← Nat.add_assoc, evalStmt, evalStmt, stepsStmt, stepsStmt]
    exact (evalExpr_takes extra fuel e s m).andThen fun v m₁ => takes_step trivial rfl
termination_by structural fuel => fuel

theorem evalBlock_takes (extra : Nat) : ∀ fuel last code s m,
    Takes ctx.builtins m (evalBlock ctx fuel last code s m)
      (evalBlock ctx (extra + fuel) last code s m)
      (stepsBlock ctx fuel code s m) (stepsBlock ctx (extra + fuel) code s m)
  | 0, _, _, _, _ => by
    rw [evalBlock, stepsBlock]
    exact takes_exhausted
  | fuel + 1, last, [], s, m => by
    rw [← Nat.add_assoc, evalBlock, evalBlock, stepsBlock, stepsBlock]
    exact takes_value last
  | fuel + 1, last, st :: rest, s, m => by
    rw [← Nat.add_assoc, evalBlock, evalBlock, stepsBlock, stepsBlock]
    exact (evalStmt_takes extra fuel st s m).andThen fun v m₁ => evalBlock_takes extra fuel v rest s m₁
termination_by structural fuel => fuel

theorem evalBranch_takes (extra : Nat) : ∀ fuel code s m,
    Takes ctx.builtins m (evalBranch ctx fuel code s m) (evalBranch ctx (extra + fuel) code s m)
      (stepsBranch ctx fuel code s m) (stepsBranch ctx (extra + fuel) code s m)
  | 0, _, _, _ => by
    rw [evalBranch, stepsBranch]
    exact takes_exhausted
  | fuel + 1, code, s, m => by
    rw [← Nat.add_assoc, evalBranch, evalBranch, stepsBranch, stepsBranch]
    exact (takes_enterBranch ctx code s).enter (evalBlock_takes extra fuel .nil code _ _)
termination_by structural fuel => fuel

theorem applyValue_takes (extra : Nat) : ∀ fuel f args m,
    Takes ctx.builtins m (applyValue ctx fuel f args m) (applyValue ctx (extra + fuel) f args m)
      (stepsCall ctx fuel f args m) (stepsCall ctx (extra + fuel) f args m)
  | 0, _, _, _ => by
    rw [applyValue, stepsCall]
    exact takes_exhausted
  | fuel + 1, f, args, m => by
    rw [← Nat.add_assoc]
    match f with
    | .func c =>
      rw [applyValue_func, applyValue_func, stepsCall, stepsCall]
      cases ctx.refusal? c args.length with
      | some fault => exact takes_settle (.error fault)
      | none =>
        exact ((takes_enter c args).enter (evalBlock_takes extra fuel .nil c.body _ _)).arrive
    | .builtin name =>
      rw [applyValue, applyValue, stepsCall, stepsCall]
      cases hfind : ctx.builtins.find? name with
      | some b => exact takes_call (List.mem_of_find?_eq_some hfind) ctx.sink args
      | none => exact takes_settle (.error _)
    | .int _ | .bool _ | .str _ | .nil | .list _ | .returned _ =>
      rw [applyValue.eq_def, applyValue.eq_def, stepsCall.eq_def, stepsCall.eq_def]
      exact takes_settle (.error _)
termination_by structural fuel => fuel

end

end

/-! ## Programs one after the other -/

/-- A program to evaluate, with what it takes as given. -/
structure Job where
  context : Context
  fuel : Nat
  code : Code
  scope : ScopeId

namespace Job

def run (job : Job) (m : Machine) : Outcome :=
  evalProgram job.context job.fuel job.code job.scope m

def steps (job : Job) (m : Machine) : List Step :=
  stepsBlock job.context job.fuel job.code job.scope m

def fueled (extra : Nat) (job : Job) : Job :=
  { job with fuel := extra + job.fuel }

def runAll : List Job → Machine → Option (List Value × Machine)
  | [], m => some ([], m)
  | job :: jobs, m =>
    (job.run m).bind fun r => (runAll jobs r.2).bind fun rs => some (r.1 :: rs.1, rs.2)

/-- The steps of programs one after the other, up to the end of the first that runs out of fuel. -/
def stepsAll : List Job → Machine → List Step
  | [], _ => []
  | job :: jobs, m => job.steps m ++ following (job.run m) fun _ m => stepsAll jobs m

theorem run_takes (job : Job) (extra : Nat) (m : Machine) :
    Takes job.context.builtins m (job.run m) ((job.fueled extra).run m) (job.steps m)
      ((job.fueled extra).steps m) :=
  (evalBlock_takes extra job.fuel .nil job.code job.scope m).arrive

/-- What programs do one after the other, and what they do with more fuel. -/
theorem runAll_takes {builtins : Builtins} (extra : Nat) {jobs : List Job}
    (h : ∀ job ∈ jobs, job.context.builtins = builtins) (m : Machine) :
    Takes builtins m (runAll jobs m) (runAll (jobs.map (fueled extra)) m) (stepsAll jobs m)
      (stepsAll (jobs.map (fueled extra)) m) := by
  induction jobs generalizing m with
  | nil => exact takes_value []
  | cons job jobs ih =>
    obtain ⟨hhead, htail⟩ := List.forall_mem_cons.1 h
    have hrun := job.run_takes extra m
    rw [hhead] at hrun
    exact hrun.bind fun v m₁ => (ih htail m₁).map fun rs => v :: rs.1

end Job

end Scriptlet
