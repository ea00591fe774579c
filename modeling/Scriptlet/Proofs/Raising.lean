import Scriptlet.Proofs.Arrival

/-!
# Returning is raising

The evaluator marks values as `returned` and has to look for the mark wherever it goes on with one.
Here is the same language with `return` as what it means: it raises a value, and a call or a program
catches it. Nothing looks for a mark, and there is none; that what stands behind a raised value is
not evaluated is a matter of how computations are put one behind the other. The two agree, step by
step and for every amount of fuel, in all states without marked values.
-/

namespace Scriptlet

/-- A computation on the state of a run. It may end early by raising a value, and it may run out of
fuel. -/
abbrev Raising (α : Type) := ExceptT Value (StateT Machine Option) α

namespace Raising

def exhausted {α : Type} : Raising α :=
  ExceptT.mk fun _ => none

/-- A step of the state that raises nothing, but may not end. -/
def attempt {α : Type} (f : Machine → Option (α × Machine)) : Raising α :=
  ExceptT.mk fun m => (f m).map fun r => (.ok r.1, r.2)

def caught (x : Raising Value) : StateT Machine Option Value := do
  match ← x.run with
  | .ok v => return v
  | .error v => return v

mutual

def expr (ctx : Context) (fuel : Nat) (e : Expr Nat) (s : ScopeId) : Raising Value :=
  match fuel with
  | 0 => exhausted
  | fuel + 1 =>
    match e with
    | .ident name => modifyGet (ctx.resolve name s)
    | .int n => return .int n
    | .bool b => return .bool b
    | .str text => return .str text
    | .nil => return .nil
    | .list elements => do
      let vs ← exprs ctx fuel elements s
      modifyGet (·.newList vs)
    | .prefixOp op operand => do
      let v ← expr ctx fuel operand s
      modifyGet fun m => m.settle (op.apply m.lists v)
    | .infixOp .and left right => do
      let l ← expr ctx fuel left s
      if l.truthy (← get).lists then
        let r ← expr ctx fuel right s
        return .bool (r.truthy (← get).lists)
      else return .bool false
    | .infixOp .or left right => do
      let l ← expr ctx fuel left s
      if l.truthy (← get).lists then return .bool true
      else
        let r ← expr ctx fuel right s
        return .bool (r.truthy (← get).lists)
    | .infixOp op left right => do
      let l ← expr ctx fuel left s
      let r ← expr ctx fuel right s
      modifyGet fun m => m.settle (op.apply m.lists l r)
    | .index target position => do
      let t ← expr ctx fuel target s
      let p ← expr ctx fuel position s
      modifyGet fun m => m.settle (t.index m.lists p)
    | .cond condition consequence alternative => do
      let c ← expr ctx fuel condition s
      if c.truthy (← get).lists then branch ctx fuel consequence s
      else
        match alternative with
        | some code => branch ctx fuel code s
        | none => return .nil
    | .func label params body => return .func ⟨label, params, body, s⟩
    | .call callee arguments => do
      let f ← expr ctx fuel callee s
      let args ← exprs ctx fuel arguments s
      call ctx fuel f args

def exprs (ctx : Context) (fuel : Nat) (es : List (Expr Nat)) (s : ScopeId) :
    Raising (List Value) :=
  match fuel with
  | 0 => exhausted
  | fuel + 1 =>
    match es with
    | [] => return []
    | e :: es => do
      let v ← expr ctx fuel e s
      let vs ← exprs ctx fuel es s
      return v :: vs

def stmt (ctx : Context) (fuel : Nat) (st : Stmt Nat) (s : ScopeId) : Raising Value :=
  match fuel with
  | 0 => exhausted
  | fuel + 1 =>
    match st with
    | .expr e => expr ctx fuel e s
    | .ret e => do
      let v ← expr ctx fuel e s
      throw v
    | .var name e => do
      let v ← expr ctx fuel e s
      modifyGet fun m => (v, m.bind s name v)

def block (ctx : Context) (fuel : Nat) (last : Value) (code : Code) (s : ScopeId) :
    Raising Value :=
  match fuel with
  | 0 => exhausted
  | fuel + 1 =>
    match code with
    | [] => return last
    | st :: rest => do
      let v ← stmt ctx fuel st s
      block ctx fuel v rest s

def branch (ctx : Context) (fuel : Nat) (code : Code) (s : ScopeId) : Raising Value :=
  match fuel with
  | 0 => exhausted
  | fuel + 1 => do
    let s ← modifyGet (ctx.enterBranch code s)
    block ctx fuel .nil code s

/-- Calls a value. What the body of a function raises is the value of the call. -/
def call (ctx : Context) (fuel : Nat) (f : Value) (args : List Value) : Raising Value :=
  match fuel with
  | 0 => exhausted
  | fuel + 1 =>
    match f with
    | .func c =>
      match ctx.refusal? c args.length with
      | some fault => modifyGet (·.settle (.error fault))
      | none => do
        let s ← modifyGet (·.enter c args)
        caught (block ctx fuel .nil c.body s)
    | .builtin name =>
      match ctx.builtins.find? name with
      | some b => attempt (·.callBuiltin ctx.sink b args)
      | none => modifyGet (·.settle (.error (.notAFunction f)))
    | f => modifyGet (·.settle (.error (.notAFunction f)))

end

/-- Evaluates a program in a scope. What it raises is its value. -/
def program (ctx : Context) (fuel : Nat) (code : Code) (s : ScopeId) :
    StateT Machine Option Value :=
  caught (block ctx fuel .nil code s)

/-! ## Running computations -/

variable {α β : Type}

theorem run_bind (x : Raising α) (next : α → Raising β) (m : Machine) :
    (x >>= next).run.run m =
      match x.run.run m with
      | none => none
      | some (.error v, m) => some (.error v, m)
      | some (.ok a, m) => (next a).run.run m := by
  change (x.run.run m).bind _ = _
  rcases x.run.run m with _ | ⟨_ | a, m₁⟩ <;> rfl

/-- A step of the state that raises nothing, and what follows. -/
theorem run_modifyGet_bind (f : Machine → α × Machine) (next : α → Raising β) (m : Machine) :
    ((modifyGet f : Raising α) >>= next).run.run m = (next (f m).1).run.run (f m).2 :=
  rfl

theorem run_get_bind (next : Machine → Raising β) (m : Machine) :
    ((get : Raising Machine) >>= next).run.run m = (next m).run.run m :=
  rfl

end Raising

/-! ## One step of each -/

/-- What the evaluator ends with stands for what a computation ends with: a marked value for a
raised one, and every other value for itself. -/
inductive Outcome.Encodes : Outcome → Option (Except Value Value × Machine) → Prop
  | exhausted : Encodes none none
  | value {v : Value} {m : Machine} (hv : v.isReturned = false) :
    Encodes (some (v, m)) (some (.ok v, m))
  | raised {v : Value} {m : Machine} : Encodes (some (.returned v, m)) (some (.error v, m))

inductive Outcomes.Encodes : Outcomes → Option (Except Value (List Value) × Machine) → Prop
  | exhausted : Encodes none none
  | values {vs : List Value} {m : Machine} : Encodes (some (.ok vs, m)) (some (.ok vs, m))
  | raised {v : Value} {m : Machine} :
    Encodes (some (.error (.returned v), m)) (some (.error v, m))

section

variable {m : Machine} {o : Outcome} {os : Outcomes} {x : Raising Value}
  {xs : Raising (List Value)}

theorem Outcome.encodes_modifyGet (f : Machine → Value × Machine)
    (h : m.Reaches Invariant.settled.lenient (f m).1 (f m).2) :
    Outcome.Encodes (some (f m)) ((modifyGet f : Raising Value).run.run m) :=
  .value h.admits

theorem Outcome.encodes_attempt (f : Machine → Outcome)
    (h : (f m).Yields (m.Reaches Invariant.settled.lenient)) :
    (f m).Encodes ((Raising.attempt f).run.run m) := by
  change (f m).Encodes ((f m).map _)
  generalize f m = o at h ⊢
  rcases o with _ | ⟨v, m₁⟩
  · exact .exhausted
  · exact .value (h v m₁ rfl).admits

theorem Outcome.Encodes.bind {next : Value → Machine → Outcome} {rest : Value → Raising Value}
    (hx : o.Encodes (x.run.run m)) (ho : o.Upholds Invariant.settled.lenient m)
    (hnext : ∀ v m₁, m.Grown m₁ → m₁.Obeys Invariant.settled.lenient →
      m₁.Admits Invariant.settled.lenient v → (next v m₁).Encodes ((rest v).run.run m₁)) :
    (o.andThen next).Encodes ((x >>= rest).run.run m) := by
  rw [Raising.run_bind]
  generalize hr : x.run.run m = r at hx
  cases hx with
  | exhausted => exact .exhausted
  | raised => exact .raised
  | @value v m₁ hv =>
    obtain ⟨hgrown, hobeys, hadmits⟩ := ho v m₁ rfl
    cases v with
    | returned => cases hv
    | _ => exact hnext _ m₁ hgrown hobeys hadmits

theorem Outcomes.Encodes.bind {next : List Value → Machine → Outcome}
    {rest : List Value → Raising Value} (hx : os.Encodes (xs.run.run m))
    (ho : os.Upholds Invariant.settled.lenient m)
    (hnext : ∀ vs m₁, m.Grown m₁ → m₁.Obeys Invariant.settled.lenient →
      (∀ v ∈ vs, m₁.Admits Invariant.settled.lenient v) →
        (next vs m₁).Encodes ((rest vs).run.run m₁)) :
    (os.andThen next).Encodes ((xs >>= rest).run.run m) := by
  rw [Raising.run_bind]
  generalize hr : xs.run.run m = r at hx
  cases hx with
  | exhausted => exact .exhausted
  | raised => exact .raised
  | @values vs m₁ =>
    obtain ⟨hgrown, hobeys, hadmits⟩ := ho _ m₁ rfl
    exact hnext vs m₁ hgrown hobeys hadmits

theorem Outcome.Encodes.cons {rest : Machine → Outcomes} (hx : o.Encodes (x.run.run m))
    (ho : o.Upholds Invariant.settled.lenient m)
    (hrest : ∀ m₁, m.Grown m₁ → m₁.Obeys Invariant.settled.lenient →
      (rest m₁).Encodes (xs.run.run m₁)) :
    (Outcomes.cons o rest).Encodes ((do
      let v ← x
      let vs ← xs
      return v :: vs : Raising (List Value)).run.run m) := by
  rw [Raising.run_bind]
  generalize hr : x.run.run m = r at hx
  cases hx with
  | exhausted => exact .exhausted
  | raised => exact .raised
  | @value v m₁ hv =>
    obtain ⟨hgrown, hobeys, -⟩ := ho v m₁ rfl
    have hrest := hrest m₁ hgrown hobeys
    dsimp only
    rw [Raising.run_bind]
    generalize hrs : xs.run.run m₁ = rs at hrest
    rw [Outcomes.cons_of_pass hv]
    generalize rest m₁ = os at hrest ⊢
    cases hrest with
    | exhausted => exact .exhausted
    | raised => exact .raised
    | values => exact .values

/-- Where the evaluator takes a mark off, the computation catches what it raised. -/
theorem Outcome.Encodes.arrive (hx : o.Encodes (x.run.run m)) :
    o.arrive = (Raising.caught x).run m := by
  change _ = (x.run.run m).bind _
  generalize x.run.run m = r at hx
  cases hx with
  | exhausted => rfl
  | raised => rfl
  | @value v m₁ hv =>
    cases v with
    | returned => cases hv
    | _ => rfl

theorem Outcome.Encodes.caught (hx : o.Encodes (x.run.run m))
    (ho : o.Upholds Invariant.settled.lenient m) :
    o.arrive.Encodes ((Raising.caught x : Raising Value).run.run m) := by
  have hreaches := ho.arrive
  change o.arrive.Encodes (((Raising.caught x).run m).bind _)
  rw [← hx.arrive]
  generalize o.arrive = arrived at hreaches
  rcases arrived with _ | ⟨v, m₁⟩
  · exact .exhausted
  · exact .value (hreaches v m₁ rfl).admits

end

/-! ## The evaluator, part by part -/

theorem Raising.expr_infixOp {op : InfixOp} (hand : op ≠ .and) (hor : op ≠ .or) (ctx : Context)
    (fuel : Nat) (left right : Expr Nat) (s : ScopeId) :
    Raising.expr ctx (fuel + 1) (.infixOp op left right) s =
      (Raising.expr ctx fuel left s >>= fun l => Raising.expr ctx fuel right s >>= fun r =>
        modifyGet fun m => m.settle (op.apply m.lists l r)) := by
  cases op with
  | and => exact absurd rfl hand
  | or => exact absurd rfl hor
  | _ => rw [Raising.expr] <;> intro h <;> cases h

section

variable {ctx : Context}

mutual

/-- What the evaluator makes of an expression stands for what the computation does: a value on its
way out for a raised one. -/
theorem evalExpr_encodes (hb : ctx.builtins.Respect Invariant.settled.lenient) : ∀ fuel e s m,
    m.Obeys Invariant.settled.lenient → s < m.scopes.size →
      (evalExpr ctx fuel e s m).Encodes ((Raising.expr ctx fuel e s).run.run m)
  | 0, _, _, _, _, _ => by
    rw [evalExpr, Raising.expr]
    exact .exhausted
  | fuel + 1, e, s, m, h, hs => by
    have expr := evalExpr_encodes hb fuel
    have exprs := evalExprs_encodes hb fuel
    have branch := evalBranch_encodes hb fuel
    have upholds := evalExpr_upholds hb fuel
    have upholdAll := evalExprs_upholds hb fuel
    match e with
    | .ident name =>
      rw [evalExpr, Raising.expr]
      exact Outcome.encodes_modifyGet (ctx.resolve name s) (h.resolve ctx name s)
    | .int n =>
      rw [evalExpr, Raising.expr]
      exact .value rfl
    | .bool b =>
      rw [evalExpr, Raising.expr]
      exact .value rfl
    | .str text =>
      rw [evalExpr, Raising.expr]
      exact .value rfl
    | .nil =>
      rw [evalExpr, Raising.expr]
      exact .value rfl
    | .list elements =>
      rw [evalExpr, Raising.expr]
      refine (exprs elements s m h hs).bind (upholdAll elements s m h hs) fun vs m₁ _ h₁ hvs => ?_
      exact Outcome.encodes_modifyGet (·.newList vs) (h₁.newList hvs)
    | .prefixOp op operand =>
      rw [evalExpr, Raising.expr]
      refine (expr operand s m h hs).bind (upholds operand s m h hs) fun v m₁ _ h₁ hv => ?_
      exact Outcome.encodes_modifyGet (fun m => m.settle (op.apply m.lists v)) (h₁.prefixOp hv op)
    | .infixOp op left right =>
      -- `and` and `or` may do without their right operand
      by_cases hand : op = .and
      · subst hand
        rw [evalExpr, Raising.expr]
        refine (expr left s m h hs).bind (upholds left s m h hs) fun l m₁ hm₁ h₁ _ => ?_
        have hs₁ := Nat.lt_of_lt_of_le hs hm₁.scopes
        rw [Raising.run_get_bind]
        split
        · exact (expr right s m₁ h₁ hs₁).bind (upholds right s m₁ h₁ hs₁) fun r m₂ _ _ _ =>
            .value rfl
        · exact .value rfl
      · by_cases hor : op = .or
        · subst hor
          rw [evalExpr, Raising.expr]
          refine (expr left s m h hs).bind (upholds left s m h hs) fun l m₁ hm₁ h₁ _ => ?_
          have hs₁ := Nat.lt_of_lt_of_le hs hm₁.scopes
          rw [Raising.run_get_bind]
          split
          · exact .value rfl
          · exact (expr right s m₁ h₁ hs₁).bind (upholds right s m₁ h₁ hs₁) fun r m₂ _ _ _ =>
              .value rfl
        · rw [evalExpr_infixOp hand hor, Raising.expr_infixOp hand hor]
          refine (expr left s m h hs).bind (upholds left s m h hs) fun l m₁ hm₁ h₁ hl => ?_
          have hs₁ := Nat.lt_of_lt_of_le hs hm₁.scopes
          refine (expr right s m₁ h₁ hs₁).bind (upholds right s m₁ h₁ hs₁) fun r m₂ hm₂ h₂ hr => ?_
          exact Outcome.encodes_modifyGet (fun m => m.settle (op.apply m.lists l r))
            (h₂.infixOp (hl.mono hm₂) hr op)
    | .index target position =>
      rw [evalExpr, Raising.expr]
      refine (expr target s m h hs).bind (upholds target s m h hs) fun t m₁ hm₁ h₁ ht => ?_
      have hs₁ := Nat.lt_of_lt_of_le hs hm₁.scopes
      refine (expr position s m₁ h₁ hs₁).bind (upholds position s m₁ h₁ hs₁)
        fun p m₂ hm₂ h₂ hp => ?_
      exact Outcome.encodes_modifyGet (fun m => m.settle (t.index m.lists p))
        (h₂.index (ht.mono hm₂) hp)
    | .cond condition consequence alternative =>
      rw [evalExpr, Raising.expr.eq_def]
      refine (expr condition s m h hs).bind (upholds condition s m h hs) fun c m₁ hm₁ h₁ _ => ?_
      have hs₁ := Nat.lt_of_lt_of_le hs hm₁.scopes
      rw [Raising.run_get_bind]
      split
      · exact branch consequence s m₁ h₁ hs₁
      · cases alternative with
        | some code => exact branch code s m₁ h₁ hs₁
        | none => exact .value rfl
    | .func label params body =>
      rw [evalExpr, Raising.expr]
      exact .value rfl
    | .call callee arguments =>
      rw [evalExpr, Raising.expr]
      refine (expr callee s m h hs).bind (upholds callee s m h hs) fun f m₁ hm₁ h₁ hf => ?_
      have hs₁ := Nat.lt_of_lt_of_le hs hm₁.scopes
      refine (exprs arguments s m₁ h₁ hs₁).bind (upholdAll arguments s m₁ h₁ hs₁)
        fun args m₂ hm₂ h₂ hargs => ?_
      exact applyValue_encodes hb fuel f args m₂ h₂ (hf.mono hm₂) hargs
termination_by structural fuel => fuel

theorem evalExprs_encodes (hb : ctx.builtins.Respect Invariant.settled.lenient) : ∀ fuel es s m,
    m.Obeys Invariant.settled.lenient → s < m.scopes.size →
      (evalExprs ctx fuel es s m).Encodes ((Raising.exprs ctx fuel es s).run.run m)
  | 0, _, _, _, _, _ => by
    rw [evalExprs, Raising.exprs]
    exact .exhausted
  | fuel + 1, [], s, m, h, _ => by
    rw [evalExprs, Raising.exprs]
    exact .values
  | fuel + 1, e :: es, s, m, h, hs => by
    rw [evalExprs_cons, Raising.exprs]
    exact (evalExpr_encodes hb fuel e s m h hs).cons (evalExpr_upholds hb fuel e s m h hs)
      fun m₁ hm₁ h₁ => evalExprs_encodes hb fuel es s m₁ h₁ (Nat.lt_of_lt_of_le hs hm₁.scopes)
termination_by structural fuel => fuel

theorem evalStmt_encodes (hb : ctx.builtins.Respect Invariant.settled.lenient) : ∀ fuel st s m,
    m.Obeys Invariant.settled.lenient → s < m.scopes.size →
      (evalStmt ctx fuel st s m).Encodes ((Raising.stmt ctx fuel st s).run.run m)
  | 0, _, _, _, _, _ => by
    rw [evalStmt, Raising.stmt]
    exact .exhausted
  | fuel + 1, .expr e, s, m, h, hs => by
    rw [evalStmt, Raising.stmt]
    exact evalExpr_encodes hb fuel e s m h hs
  | fuel + 1, .ret e, s, m, h, hs => by
    rw [evalStmt, Raising.stmt]
    exact (evalExpr_encodes hb fuel e s m h hs).bind (evalExpr_upholds hb fuel e s m h hs)
      fun _ _ _ _ _ => .raised
  | fuel + 1, .var name e, s, m, h, hs => by
    rw [evalStmt, Raising.stmt]
    exact (evalExpr_encodes hb fuel e s m h hs).bind (evalExpr_upholds hb fuel e s m h hs)
      fun _ _ _ _ hv => .value hv
termination_by structural fuel => fuel

theorem evalBlock_encodes (hb : ctx.builtins.Respect Invariant.settled.lenient) :
    ∀ fuel last code s m, m.Obeys Invariant.settled.lenient → s < m.scopes.size →
      m.Admits Invariant.settled.lenient last →
      (evalBlock ctx fuel last code s m).Encodes ((Raising.block ctx fuel last code s).run.run m)
  | 0, _, _, _, _, _, _, _ => by
    rw [evalBlock, Raising.block]
    exact .exhausted
  | fuel + 1, last, [], s, m, _, _, hlast => by
    rw [evalBlock, Raising.block]
    exact .value hlast
  | fuel + 1, last, st :: rest, s, m, h, hs, _ => by
    rw [evalBlock, Raising.block]
    exact (evalStmt_encodes hb fuel st s m h hs).bind (evalStmt_upholds hb fuel st s m h hs)
      fun v m₁ hm₁ h₁ hv =>
        evalBlock_encodes hb fuel v rest s m₁ h₁ (Nat.lt_of_lt_of_le hs hm₁.scopes) hv
termination_by structural fuel => fuel

theorem evalBranch_encodes (hb : ctx.builtins.Respect Invariant.settled.lenient) :
    ∀ fuel code s m, m.Obeys Invariant.settled.lenient → s < m.scopes.size →
      (evalBranch ctx fuel code s m).Encodes ((Raising.branch ctx fuel code s).run.run m)
  | 0, _, _, _, _, _ => by
    rw [evalBranch, Raising.branch]
    exact .exhausted
  | fuel + 1, code, s, m, h, hs => by
    rw [evalBranch, Raising.branch, Raising.run_modifyGet_bind]
    obtain ⟨-, hinner, hs'⟩ := h.enterBranch ctx code hs
    exact evalBlock_encodes hb fuel .nil code _ _ hinner hs' rfl
termination_by structural fuel => fuel

theorem applyValue_encodes (hb : ctx.builtins.Respect Invariant.settled.lenient) :
    ∀ fuel f args m, m.Obeys Invariant.settled.lenient →
      m.Admits Invariant.settled.lenient f →
      (∀ v ∈ args, m.Admits Invariant.settled.lenient v) →
      (applyValue ctx fuel f args m).Encodes ((Raising.call ctx fuel f args).run.run m)
  | 0, _, _, _, _, _, _ => by
    rw [applyValue, Raising.call]
    exact .exhausted
  | fuel + 1, f, args, m, h, hf, hargs => by
    have refused := Outcome.encodes_modifyGet (·.settle (.error (.notAFunction f))) (h.refuse hf)
    match f with
    | .func c =>
      rw [applyValue_func, Raising.call]
      cases hrefusal : ctx.refusal? c args.length with
      | some fault =>
        exact Outcome.encodes_modifyGet (·.settle (.error fault)) (h.refuseCall hrefusal)
      | none =>
        obtain ⟨-, hinner, hs⟩ := h.enter hf hargs
        exact (evalBlock_encodes hb fuel .nil c.body _ _ hinner hs rfl).caught
          (evalBlock_upholds hb fuel .nil c.body _ _ hinner hs rfl)
    | .builtin name =>
      rw [applyValue, Raising.call]
      cases hfind : ctx.builtins.find? name with
      | some b =>
        exact Outcome.encodes_attempt (·.callBuiltin ctx.sink b args)
          (h.callBuiltin (hb b (List.mem_of_find?_eq_some hfind)) _ hargs)
      | none => exact refused
    | .int _ | .bool _ | .str _ | .nil | .list _ | .returned _ =>
      rw [applyValue.eq_def, Raising.call.eq_def]
      exact refused
termination_by structural fuel => fuel

end

end

/-- A program does what it does with `return` as an exception: it ends for the same amounts of fuel,
with the same value and in the same state, and inside of it a value is on its way out where the
exception is raised. No value of either is marked in the end, and neither stores a marked one. -/
theorem evalProgram_eq_raising (ctx : Context)
    (hb : ctx.builtins.Respect Invariant.settled.lenient) {m : Machine} (hm : m.Settled)
    {s : ScopeId} (hs : s < m.scopes.size) (fuel : Nat) :
    (∀ code, evalProgram ctx fuel code s m = (Raising.program ctx fuel code s).run m) ∧
    (∀ code, (evalProgram ctx fuel code s m).Yields fun v m' =>
      v.isReturned = false ∧ m'.Settled) ∧
    ∀ e, (evalExpr ctx fuel e s m).Encodes ((Raising.expr ctx fuel e s).run.run m) := by
  have hobeys := Machine.settled_iff.1 hm
  refine ⟨fun code => ?_, fun code => ?_, fun e => evalExpr_encodes hb fuel e s m hobeys hs⟩
  · exact (evalBlock_encodes hb fuel .nil code s m hobeys hs rfl).arrive
  · exact (evalProgram_reaches hb hobeys hs fuel code).mono fun v m' h =>
      ⟨h.admits, Machine.settled_iff.2 h.obeys⟩

/-- A `return` below an operator, a list and another operator. The sum is not computed, the position
is not looked up, and what follows in the function is not printed. -/
theorem evalProgram_eq_raising_of_operand :
    let ctx : Context := ⟨{}, .standard, .unlimited, Block.binds⟩
    let m := Machine.empty.newRoot.2
    let code : Code := [.expr (.call (.func 0 ["x"] [
      .expr (.infixOp .add (.int 1) (.index
        (.list [.prefixOp .not (.cond (.ident "x") [.ret (.ident "x")] none)]) (.ident "y"))),
      .expr (.call (.ident "print") [.ident "x"])]) [.int 7])]
    m.Settled ∧ (evalProgram ctx 20 code 0 m).map (fun r => (r.1, r.2.console, r.2.faults)) =
        some (.int 7, .empty, #[]) ∧
      evalProgram ctx 20 code 0 m = (Raising.program ctx 20 code 0).run m := by
  intro ctx m code
  have hm : m.Settled := by
    refine ⟨fun s name v hv => ?_, fun a v hv => by cases hv⟩
    match s with
    | 0 => cases hv
    | _ + 1 => cases hv
  exact ⟨hm, by decide +kernel, (evalProgram_eq_raising ctx (Builtins.standard_respect _) hm
    (by decide) 20).1 code⟩

end Scriptlet
