import Scriptlet.Proofs.Operands
import Scriptlet.Proofs.Shrinking
import Scriptlet.Proofs.Splitting

/-!
# Operators that may stop early

`and` and `or` evaluate their left operand first, and do without the right one if the left decides.
What is left out is only work: the answer is the one that the operator gives for the values of both
operands. The left operand counts as what it was before the right one was evaluated, though, so it
matters if that changes. It can change for lists only, and with the standard functions in one
direction: a list is emptied, and none is filled.
-/

namespace Scriptlet

/-! ## The operators -/

namespace InfixOp

/-- Whether one operand that counts as `b` decides what `and` or `or` gives, whatever the other one
is. -/
def decidedBy (op : InfixOp) (b : Bool) : Bool :=
  match op with
  | and => !b
  | or => b
  | _ => false

def verdict (op : InfixOp) (l r : Bool) : Bool :=
  if op.decidedBy l then l else r

variable {op : InfixOp}

theorem apply_logical (hop : op = and ∨ op = or) (lists : Lists) (l r : Value) :
    op.apply lists l r = .ok (.bool (op.verdict (l.truthy lists) (r.truthy lists))) := by
  rcases hop with rfl | rfl
  · rw [apply_and]
    cases l.truthy lists <;> rfl
  · rw [apply_or]
    cases l.truthy lists <;> rfl

/-- What the left operand counts as does not matter only if the right one decides as well. -/
theorem verdict_eq_iff (hop : op = and ∨ op = or) {l l' r : Bool} :
    op.verdict l r = op.verdict l' r ↔ l = l' ∨ op.decidedBy r = true := by
  rcases hop with rfl | rfl
  · revert l l' r
    decide
  · revert l l' r
    decide

end InfixOp

/-- An operator on the values of both of its operands notes nothing. -/
theorem Machine.operate_logical {op : InfixOp} (hop : op = .and ∨ op = .or) (m : Machine)
    (l r : Value) :
    m.operate op l r = (.bool (op.verdict (l.truthy m.lists) (r.truthy m.lists)), m) :=
  congrArg m.settle (InfixOp.apply_logical hop m.lists l r)

/-! ## Expressions -/

/-- One rule for both operators. -/
theorem evalExpr_logical {op : InfixOp} (hop : op = .and ∨ op = .or) (ctx : Context) (fuel : Nat)
    (left right : Expr Nat) (s : ScopeId) (m : Machine) :
    evalExpr ctx (fuel + 1) (.infixOp op left right) s m =
      Outcome.andThen (evalExpr ctx fuel left s m) fun l m =>
        if op.decidedBy (l.truthy m.lists) then some (.bool (l.truthy m.lists), m)
        else
          Outcome.andThen (evalExpr ctx fuel right s m) fun r m =>
            some (.bool (r.truthy m.lists), m) := by
  rcases hop with rfl | rfl
  · rw [evalExpr]
    congr
    funext l m
    cases l.truthy m.lists <;> rfl
  · rw [evalExpr]
    congr
    funext l m
    cases l.truthy m.lists <;> rfl

namespace Context

def Evaluates (ctx : Context) (s : ScopeId) (e : Expr Nat) (m : Machine) (v : Value)
    (m' : Machine) : Prop :=
  ∃ fuel, evalExpr ctx fuel e s m = some (v, m')

variable {ctx : Context} {s : ScopeId} {e left right : Expr Nat} {m m₁ m₂ : Machine}
  {l r u v : Value}

theorem Evaluates.steps (h : ctx.Evaluates s e m v m₁) : ctx.Steps s (.expr e) m v m₁ := by
  obtain ⟨fuel, h⟩ := h
  exact ⟨fuel + 1, by rwa [evalStmt]⟩

/-- An expression comes to one value only. -/
theorem Evaluates.unique (h : ctx.Evaluates s e m u m₁) (h' : ctx.Evaluates s e m v m₂) :
    u = v ∧ m₁ = m₂ :=
  h.steps.unique h'.steps

/-- Where both operands have values, the state is the one behind the left operand if that decides,
and otherwise the one behind both. -/
theorem Evaluates.logical {op : InfixOp} (hop : op = .and ∨ op = .or)
    (hleft : ctx.Evaluates s left m l m₁) (hl : l.isReturned = false)
    (hright : ctx.Evaluates s right m₁ r m₂) (hr : r.isReturned = false) :
    ctx.Evaluates s (.infixOp op left right) m
      (.bool (op.verdict (l.truthy m₁.lists) (r.truthy m₂.lists)))
      (if op.decidedBy (l.truthy m₁.lists) then m₁ else m₂) := by
  obtain ⟨fuel, hleft⟩ := hleft
  obtain ⟨fuel', hright⟩ := hright
  refine ⟨max fuel fuel' + 1, ?_⟩
  rw [evalExpr_logical hop, evalExpr_of_le (Nat.le_max_left ..) hleft, Outcome.andThen_of_pass hl,
    InfixOp.verdict]
  split
  · rfl
  · rw [evalExpr_of_le (Nat.le_max_right ..) hright, Outcome.andThen_of_pass hr]

/-- While an expression is evaluated, lists that are there at most get shorter. -/
theorem Evaluates.shrinks (hb : ctx.builtins = .standard) (h : ctx.Evaluates s e m v m₁)
    {a : ListId} (ha : a < m.lists.size) :
    ∃ shifted popped, m.lists.Shrinks m₁.lists a shifted popped := by
  obtain ⟨fuel, h⟩ := h
  have htakes : Takes ctx.builtins m _ _ _ _ := evalExpr_takes 0 fuel e s m
  have hshrinks := Machine.after_shrinks (hb ▸ htakes.from_table) ha
  rw [htakes.leads _ h] at hshrinks
  exact ⟨_, _, hshrinks⟩

end Context

/-! ## What the left operand counts as -/

/-- What is empty is not filled. -/
theorem Lists.Shrinks.eq_nil {lists lists₁ : Lists} {a : ListId} {shifted popped : Nat}
    (h : lists.Shrinks lists₁ a shifted popped) (hnil : lists.elements a = []) :
    lists₁.elements a = [] := by
  obtain ⟨front, back, helements, -, -⟩ := h
  rw [hnil, eq_comm, List.append_eq_nil_iff, List.append_eq_nil_iff] at helements
  exact helements.1.2

/-- Only of a list the lists decide what it counts as. -/
theorem Value.eq_list_of_truthy_ne {v : Value} (hv : v.isReturned = false) {lists lists₁ : Lists}
    (h : v.truthy lists ≠ v.truthy lists₁) :
    ∃ a, v = .list a ∧ ¬(lists.elements a = [] ↔ lists₁.elements a = []) := by
  cases v with
  | list a =>
    refine ⟨a, rfl, fun hiff => h (congrArg not (Bool.eq_iff_iff.2 ?_))⟩
    rwa [List.isEmpty_iff, List.isEmpty_iff]
  | returned => cases hv
  | _ => exact absurd rfl h

/-- Stopping early is not seen. If evaluating the left operand and then the right one gives two
values, then `and` and `or` give a truth value and nothing else. They stop in the state behind the
left operand if that decides, and otherwise in the one behind both. The truth value is what the
operator makes of both values in the end if the left one still counts as what it did, and if not,
then just in case the right one decides alone. What the left one counts as can change only if it is
a list, and with the standard functions a list that is there can only have been emptied. -/
theorem shortcuts_agree {ctx : Context} {s : ScopeId} {left right : Expr Nat}
    {m m₁ m₂ : Machine} {l r : Value}
    (hleft : ctx.Evaluates s left m l m₁) (hl : l.isReturned = false)
    (hright : ctx.Evaluates s right m₁ r m₂) (hr : r.isReturned = false) :
    (∀ op : InfixOp, op = .and ∨ op = .or → ∃ b,
      (∀ v m', ctx.Evaluates s (.infixOp op left right) m v m' ↔
        v = .bool b ∧ m' = if op.decidedBy (l.truthy m₁.lists) then m₁ else m₂) ∧
      (m₂.operate op l r = (.bool b, m₂) ↔
        l.truthy m₁.lists = l.truthy m₂.lists ∨ op.decidedBy (r.truthy m₂.lists) = true)) ∧
    (l.truthy m₁.lists ≠ l.truthy m₂.lists → ∃ a, l = .list a ∧
      (ctx.builtins = .standard → a < m₁.lists.size →
        m₁.lists.elements a ≠ [] ∧ m₂.lists.elements a = [])) := by
  refine ⟨fun op hop => ⟨op.verdict (l.truthy m₁.lists) (r.truthy m₂.lists), fun v m' => ?evaluated,
    ?applied⟩, fun hne => ?changed⟩
  case evaluated =>
    have hlogical := hleft.logical hop hl hright hr
    constructor
    · exact fun h => h.unique hlogical
    · rintro ⟨rfl, rfl⟩
      exact hlogical
  case applied =>
    rw [Machine.operate_logical hop, Prod.mk.injEq, Value.bool.injEq, and_iff_left rfl, eq_comm]
    exact InfixOp.verdict_eq_iff hop
  case changed =>
    obtain ⟨a, rfl, hdiffers⟩ := Value.eq_list_of_truthy_ne hl hne
    refine ⟨a, rfl, fun hb ha => ?_⟩
    obtain ⟨shifted, popped, hshrinks⟩ := hright.shrinks hb ha
    have hbefore : m₁.lists.elements a ≠ [] := fun hnil =>
      hdiffers (iff_of_true hnil (hshrinks.eq_nil hnil))
    have hafter : m₂.lists.elements a = [] := Classical.byContradiction fun hafter =>
      hdiffers (iff_of_false hbefore hafter)
    exact ⟨hbefore, hafter⟩

/-- An element is popped off the list on the left. If another one is left, then `and` gives what it
gives for both values, and so does `or`, which leaves the list alone. If none is left, then `and`
still gives true, where for both values it gives false. -/
theorem shortcuts_agree_of_pop :
    let ctx : Context := { options := {}, builtins := .standard, sink := .unlimited }
    let m (elements : List Value) : Machine :=
      ⟨⟨#[⟨none, [("queue", .list 0)]⟩]⟩, ⟨#[elements]⟩, .empty, #[]⟩
    let popped : Expr Nat := .call (.ident "pop") [.ident "queue"]
    (ctx.Evaluates 0 (.infixOp .and (.ident "queue") popped) (m [.int 0, .int 7]) (.bool true)
        (m [.int 0]) ∧
      (m [.int 0]).operate .and (.list 0) (.int 7) = (.bool true, m [.int 0])) ∧
    (ctx.Evaluates 0 (.infixOp .or (.ident "queue") popped) (m [.int 0, .int 7]) (.bool true)
        (m [.int 0, .int 7]) ∧
      (m [.int 0]).operate .or (.list 0) (.int 7) = (.bool true, m [.int 0])) ∧
    ctx.Evaluates 0 (.infixOp .and (.ident "queue") popped) (m [.int 7]) (.bool true) (m []) ∧
      (m []).operate .and (.list 0) (.int 7) ≠ (.bool true, m []) ∧
      (m [.int 7]).lists.elements 0 ≠ [] ∧ (m []).lists.elements 0 = [] := by
  intro ctx m popped
  have hqueue (elements : List Value) :
      ctx.Evaluates 0 (.ident "queue") (m elements) (.list 0) (m elements) :=
    ⟨1, by with_unfolding_all rfl⟩
  have hkept : ctx.Evaluates 0 popped (m [.int 0, .int 7]) (.int 7) (m [.int 0]) :=
    ⟨3, by with_unfolding_all rfl⟩
  have hlast : ctx.Evaluates 0 popped (m [.int 7]) (.int 7) (m []) :=
    ⟨3, by with_unfolding_all rfl⟩
  have logical {op : InfixOp} (hop : op = .and ∨ op = .or) {b : Bool}
      (hboth : (m [.int 0]).operate op (.list 0) (.int 7) = (.bool b, m [.int 0])) :
      ctx.Evaluates 0 (.infixOp op (.ident "queue") popped) (m [.int 0, .int 7]) (.bool b)
        (if op.decidedBy true then m [.int 0, .int 7] else m [.int 0]) := by
    obtain ⟨c, heval, hagrees⟩ := (shortcuts_agree (hqueue _) rfl hkept rfl).1 op hop
    have hc := (hagrees.2 (.inl rfl)).symm.trans hboth
    exact (heval _ _).2 ⟨congrArg Prod.fst hc.symm, rfl⟩
  obtain ⟨hlogic, hchanged⟩ := shortcuts_agree (hqueue _) rfl hlast rfl
  obtain ⟨b, heval, hagrees⟩ := hlogic .and (.inl rfl)
  have hdiffers : (m []).operate .and (.list 0) (.int 7) ≠ (.bool b, m []) := by
    intro h
    rcases hagrees.1 h with h | h <;> cases h
  obtain rfl : b = true := by
    cases b with
    | false => exact absurd rfl hdiffers
    | true => rfl
  obtain ⟨a, ha, hemptied⟩ := hchanged (by decide)
  cases ha
  exact ⟨⟨logical (.inl rfl) rfl, rfl⟩, ⟨logical (.inr rfl) rfl, rfl⟩, (heval _ _).2 ⟨rfl, rfl⟩,
    hdiffers, hemptied rfl (by decide)⟩

end Scriptlet
