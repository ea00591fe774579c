import Scriptlet.Context
import Scriptlet.Operation

/-!
# Evaluation

Every program has a value. A `return` makes its value a `returned` one, which ends everything around
it up to the innermost function or to the program; `Outcome.andThen` is the one place where
evaluation goes on with a value or lets it pass. Calls jump to code that a value holds, so
evaluation is bounded by fuel: `none` says that the fuel ran out and nothing else.
-/

namespace Scriptlet

/-- The value and the state after a step, unless it did not end. -/
abbrev Outcome := Option (Value × Machine)

namespace Outcome

/-- Goes on with the value of a step. A value on its way out passes instead. -/
@[inline] def andThen (o : Outcome) (next : Value → Machine → Outcome) : Outcome :=
  match o with
  | none => none
  | some (.returned v, m) => some (.returned v, m)
  | some (v, m) => next v m

/-- The end of a function or program: a value on its way out has arrived. -/
@[inline] def arrive (o : Outcome) : Outcome :=
  o.map fun (v, m) => (v.arrived, m)

end Outcome

/-- The values of several expressions, or the one on its way out that ended their evaluation, and
the state after it, unless it did not end. -/
abbrev Outcomes := Option (Except Value (List Value) × Machine)

namespace Outcomes

@[inline] def andThen (o : Outcomes) (next : List Value → Machine → Outcome) : Outcome :=
  match o with
  | none => none
  | some (.error v, m) => some (v, m)
  | some (.ok vs, m) => next vs m

end Outcomes

mutual

def evalExpr (ctx : Context) (fuel : Nat) (e : Expr Nat) (s : ScopeId) (m : Machine) : Outcome :=
  match fuel with
  | 0 => none
  | fuel + 1 =>
    match e with
    | .ident name => some (ctx.resolve name s m)
    | .int n => some (.int n, m)
    | .bool b => some (.bool b, m)
    | .str text => some (.str text, m)
    | .nil => some (.nil, m)
    | .list elements =>
      Outcomes.andThen (evalExprs ctx fuel elements s m) fun vs m => some (m.newList vs)
    | .prefixOp op operand =>
      Outcome.andThen (evalExpr ctx fuel operand s m) fun v m =>
      some (m.settle (op.apply m.lists v))
    | .infixOp .and left right =>
      Outcome.andThen (evalExpr ctx fuel left s m) fun l m =>
      if l.truthy m.lists then
        Outcome.andThen (evalExpr ctx fuel right s m) fun r m =>
        some (.bool (r.truthy m.lists), m)
      else some (.bool false, m)
    | .infixOp .or left right =>
      Outcome.andThen (evalExpr ctx fuel left s m) fun l m =>
      if l.truthy m.lists then some (.bool true, m)
      else
        Outcome.andThen (evalExpr ctx fuel right s m) fun r m =>
        some (.bool (r.truthy m.lists), m)
    | .infixOp op left right =>
      Outcome.andThen (evalExpr ctx fuel left s m) fun l m =>
      Outcome.andThen (evalExpr ctx fuel right s m) fun r m =>
      some (m.settle (op.apply m.lists l r))
    | .index target position =>
      Outcome.andThen (evalExpr ctx fuel target s m) fun t m =>
      Outcome.andThen (evalExpr ctx fuel position s m) fun p m =>
      some (m.settle (t.index m.lists p))
    | .cond condition consequence alternative =>
      Outcome.andThen (evalExpr ctx fuel condition s m) fun c m =>
      if c.truthy m.lists then evalBranch ctx fuel consequence s m
      else
        match alternative with
        | some branch => evalBranch ctx fuel branch s m
        | none => some (.nil, m)
    | .func label params body => some (.func ⟨label, params, body, s⟩, m)
    | .call callee arguments =>
      Outcome.andThen (evalExpr ctx fuel callee s m) fun f m =>
      Outcomes.andThen (evalExprs ctx fuel arguments s m) fun args m =>
      applyValue ctx fuel f args m

def evalExprs (ctx : Context) (fuel : Nat) (es : List (Expr Nat)) (s : ScopeId) (m : Machine) :
    Outcomes :=
  match fuel with
  | 0 => none
  | fuel + 1 =>
    match es with
    | [] => some (.ok [], m)
    | e :: es =>
      match evalExpr ctx fuel e s m with
      | none => none
      | some (.returned v, m) => some (.error (.returned v), m)
      | some (v, m) =>
        match evalExprs ctx fuel es s m with
        | none => none
        | some (.error v, m) => some (.error v, m)
        | some (.ok vs, m) => some (.ok (v :: vs), m)

def evalStmt (ctx : Context) (fuel : Nat) (st : Stmt Nat) (s : ScopeId) (m : Machine) : Outcome :=
  match fuel with
  | 0 => none
  | fuel + 1 =>
    match st with
    | .expr e => evalExpr ctx fuel e s m
    | .ret e => Outcome.andThen (evalExpr ctx fuel e s m) fun v m => some (.returned v, m)
    | .var name e => Outcome.andThen (evalExpr ctx fuel e s m) fun v m => some (v, m.bind s name v)

/-- Evaluates statements one after the other, up to the first whose value is on its way out. The
value is the last one's, or `last` if there are none. -/
def evalBlock (ctx : Context) (fuel : Nat) (last : Value) (block : Code) (s : ScopeId)
    (m : Machine) : Outcome :=
  match fuel with
  | 0 => none
  | fuel + 1 =>
    match block with
    | [] => some (last, m)
    | st :: rest =>
      Outcome.andThen (evalStmt ctx fuel st s m) fun v m => evalBlock ctx fuel v rest s m

def evalBranch (ctx : Context) (fuel : Nat) (branch : Code) (s : ScopeId) (m : Machine) :
    Outcome :=
  match fuel with
  | 0 => none
  | fuel + 1 =>
    let (s, m) := ctx.enterBranch branch s m
    evalBlock ctx fuel .nil branch s m

/-- Calls a value. A function runs in a new scope inside the one that it was made in. -/
def applyValue (ctx : Context) (fuel : Nat) (f : Value) (args : List Value) (m : Machine) :
    Outcome :=
  match fuel with
  | 0 => none
  | fuel + 1 =>
    match f with
    | .func c =>
      match ctx.options.arity, c.arityFault? args.length with
      | .strict, some fault => some (m.settle (.error fault))
      | _, fault? =>
        let m := (fault?.map m.note).getD m
        let (s, m) := m.enclose c.scope (Bindings.bindParams [] c.params args)
        Outcome.arrive (evalBlock ctx fuel .nil c.body s m)
    | .builtin name =>
      match ctx.builtins.find? name with
      | some b => m.callBuiltin ctx.sink b args
      | none => some (m.settle (.error (.notAFunction f)))
    | f => some (m.settle (.error (.notAFunction f)))

end

def evalProgram (ctx : Context) (fuel : Nat) (code : Code) (s : ScopeId) (m : Machine) :
    Outcome :=
  Outcome.arrive (evalBlock ctx fuel .nil code s m)

end Scriptlet
