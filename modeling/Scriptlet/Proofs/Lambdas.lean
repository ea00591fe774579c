import Mathlib.Data.List.Nodup
import Scriptlet.Proofs.Upkeep
import Scriptlet.Tree.Label

/-!
# Where functions come from

Every function is made from a literal of a program that was run, and so are the functions that its
body makes. `Value.MadeOf Q` says of a value that it holds functions only from literals with a
property; if all literals of a program have it, evaluating the program stores and gives no other
functions. Programs that are numbered one after the other have no number in common, so a number
tells which literal a function is from.
-/

namespace Scriptlet

structure Lambda (ι : Type) where
  label : ι
  params : List String
  body : Block ι

def Closure.lambda (c : Closure) : Lambda Nat :=
  ⟨c.label, c.params, c.body⟩

section

variable {ι : Type}

mutual

/-- The function literals of an expression, an outer one before those in its body. -/
def Expr.lambdas : Expr ι → List (Lambda ι)
  | .ident _ | .int _ | .bool _ | .str _ | .nil => []
  | .list elements => exprsLambdas elements
  | .prefixOp _ operand => operand.lambdas
  | .infixOp _ left right => left.lambdas ++ right.lambdas
  | .index target position => target.lambdas ++ position.lambdas
  | .cond condition consequence none => condition.lambdas ++ Block.lambdas consequence
  | .cond condition consequence (some alternative) =>
    condition.lambdas ++ (Block.lambdas consequence ++ Block.lambdas alternative)
  | .func label params body => ⟨label, params, body⟩ :: Block.lambdas body
  | .call callee arguments => callee.lambdas ++ exprsLambdas arguments

def exprsLambdas : List (Expr ι) → List (Lambda ι)
  | [] => []
  | e :: es => e.lambdas ++ exprsLambdas es

def Stmt.lambdas : Stmt ι → List (Lambda ι)
  | .var _ e => e.lambdas
  | .ret e => e.lambdas
  | .expr e => e.lambdas

def Block.lambdas : Block ι → List (Lambda ι)
  | [] => []
  | st :: rest => st.lambdas ++ Block.lambdas rest

end

end

/-! ## Literals in literals -/

section

variable {ι : Type} {f g : Lambda ι}

mutual

/-- What is a literal in the body of an expression's literal is a literal of the expression. -/
theorem Expr.mem_lambdas_trans : ∀ (e : Expr ι), f ∈ e.lambdas → g ∈ Block.lambdas f.body →
    g ∈ e.lambdas
  | .ident _, hf, _ | .int _, hf, _ | .bool _, hf, _ | .str _, hf, _ | .nil, hf, _ => by
    cases hf
  | .list elements, hf, hg => by
    rw [Expr.lambdas] at hf ⊢
    exact exprs_mem_lambdas_trans elements hf hg
  | .prefixOp _ operand, hf, hg => by
    rw [Expr.lambdas] at hf ⊢
    exact operand.mem_lambdas_trans hf hg
  | .infixOp _ left right, hf, hg | .index left right, hf, hg => by
    rw [Expr.lambdas, List.mem_append] at hf ⊢
    exact hf.imp (left.mem_lambdas_trans · hg) (right.mem_lambdas_trans · hg)
  | .cond condition consequence none, hf, hg => by
    rw [Expr.lambdas, List.mem_append] at hf ⊢
    exact hf.imp (condition.mem_lambdas_trans · hg) (block_mem_lambdas_trans consequence · hg)
  | .cond condition consequence (some alternative), hf, hg => by
    rw [Expr.lambdas, List.mem_append, List.mem_append] at hf ⊢
    exact hf.imp (condition.mem_lambdas_trans · hg) (Or.imp
      (block_mem_lambdas_trans consequence · hg) (block_mem_lambdas_trans alternative · hg))
  | .func _ _ body, hf, hg => by
    rw [Expr.lambdas, List.mem_cons] at hf ⊢
    rcases hf with rfl | hf
    · exact .inr hg
    · exact .inr (block_mem_lambdas_trans body hf hg)
  | .call callee arguments, hf, hg => by
    rw [Expr.lambdas, List.mem_append] at hf ⊢
    exact hf.imp (callee.mem_lambdas_trans · hg) (exprs_mem_lambdas_trans arguments · hg)

theorem exprs_mem_lambdas_trans : ∀ (es : List (Expr ι)), f ∈ exprsLambdas es →
    g ∈ Block.lambdas f.body → g ∈ exprsLambdas es
  | [], hf, _ => by cases hf
  | e :: es, hf, hg => by
    rw [exprsLambdas, List.mem_append] at hf ⊢
    exact hf.imp (e.mem_lambdas_trans · hg) (exprs_mem_lambdas_trans es · hg)

theorem Stmt.mem_lambdas_trans : ∀ (st : Stmt ι), f ∈ st.lambdas → g ∈ Block.lambdas f.body →
    g ∈ st.lambdas
  | .var _ e, hf, hg | .ret e, hf, hg | .expr e, hf, hg => by
    rw [Stmt.lambdas] at hf ⊢
    exact e.mem_lambdas_trans hf hg

theorem block_mem_lambdas_trans : ∀ (block : Block ι), f ∈ Block.lambdas block →
    g ∈ Block.lambdas f.body → g ∈ Block.lambdas block
  | [], hf, _ => by cases hf
  | st :: rest, hf, hg => by
    rw [Block.lambdas, List.mem_append] at hf ⊢
    exact hf.imp (st.mem_lambdas_trans · hg) (block_mem_lambdas_trans rest · hg)

end

end

/-! ## Numbers of literals -/

/-- Literals that are numbered from `next` on, in their order, up to `after`. -/
structure Numbered (next : Nat) (lambdas : List (Lambda Nat)) (after : Nat) : Prop where
  after_eq : after = next + lambdas.length
  labels : lambdas.map Lambda.label = List.range' next lambdas.length

theorem numbered_nil (next : Nat) : Numbered next [] next :=
  ⟨rfl, rfl⟩

theorem Numbered.append {next mid after : Nat} {lambdas lambdas' : List (Lambda Nat)}
    (h : Numbered next lambdas mid) (h' : Numbered mid lambdas' after) :
    Numbered next (lambdas ++ lambdas') after where
  after_eq := by rw [h'.after_eq, h.after_eq, List.length_append, Nat.add_assoc]
  labels := by
    rw [List.map_append, h.labels, h'.labels, h.after_eq, List.range'_append_1, List.length_append]

theorem Numbered.cons {next after : Nat} {lambdas : List (Lambda Nat)}
    (h : Numbered (next + 1) lambdas after) (params : List String) (body : Code) :
    Numbered next (⟨next, params, body⟩ :: lambdas) after where
  after_eq := by rw [h.after_eq, List.length_cons]; omega
  labels := by rw [List.map_cons, h.labels, List.length_cons, List.range'_succ]

mutual

/-- Labelling numbers the literals in their order and leaves out no number. -/
theorem Expr.label_numbered : ∀ (e : Expr Unit) (next : Nat),
    Numbered next (e.label next).1.lambdas (e.label next).2
  | .ident _, next | .int _, next | .bool _, next | .str _, next | .nil, next => by
    simpa only [Expr.lambdas, Expr.label] using numbered_nil next
  | .list elements, next => by
    simpa only [Expr.lambdas, Expr.label] using labelExprs_numbered elements next
  | .prefixOp _ operand, next => by
    simpa only [Expr.lambdas, Expr.label] using operand.label_numbered next
  | .infixOp _ left right, next => by
    simpa only [Expr.lambdas, Expr.label] using
      (left.label_numbered next).append (right.label_numbered _)
  | .index target position, next => by
    simpa only [Expr.lambdas, Expr.label] using
      (target.label_numbered next).append (position.label_numbered _)
  | .cond condition consequence none, next => by
    simpa only [Expr.lambdas, Expr.label] using
      (condition.label_numbered next).append (labelBlock_numbered consequence _)
  | .cond condition consequence (some alternative), next => by
    simpa only [Expr.lambdas, Expr.label] using
      (condition.label_numbered next).append ((labelBlock_numbered consequence _).append
        (labelBlock_numbered alternative _))
  | .func _ params body, next => by
    simpa only [Expr.lambdas, Expr.label] using
      (labelBlock_numbered body (next + 1)).cons params _
  | .call callee arguments, next => by
    simpa only [Expr.lambdas, Expr.label] using
      (callee.label_numbered next).append (labelExprs_numbered arguments _)

theorem labelExprs_numbered : ∀ (es : List (Expr Unit)) (next : Nat),
    Numbered next (exprsLambdas (labelExprs next es).1) (labelExprs next es).2
  | [], next => by
    simpa only [exprsLambdas, labelExprs] using numbered_nil next
  | e :: es, next => by
    simpa only [exprsLambdas, labelExprs] using
      (e.label_numbered next).append (labelExprs_numbered es _)

theorem Stmt.label_numbered : ∀ (st : Stmt Unit) (next : Nat),
    Numbered next (st.label next).1.lambdas (st.label next).2
  | .var _ e, next | .ret e, next | .expr e, next => by
    simpa only [Stmt.lambdas, Stmt.label] using e.label_numbered next

theorem labelBlock_numbered : ∀ (block : Block Unit) (next : Nat),
    Numbered next (Block.lambdas (labelBlock next block).1) (labelBlock next block).2
  | [], next => by
    simpa only [Block.lambdas, labelBlock] using numbered_nil next
  | st :: rest, next => by
    simpa only [Block.lambdas, labelBlock] using
      (st.label_numbered next).append (labelBlock_numbered rest _)

end

def labelPrograms (next : Nat) : List Program → List Code
  | [] => []
  | program :: programs =>
    let (code, next) := program.label next
    code :: labelPrograms next programs

theorem labelPrograms_numbered (programs : List Program) (next : Nat) :
    ∃ after, Numbered next ((labelPrograms next programs).flatMap Block.lambdas) after := by
  induction programs generalizing next with
  | nil => exact ⟨next, numbered_nil next⟩
  | cons program programs ih =>
    obtain ⟨after, hrest⟩ := ih (program.label next).2
    exact ⟨after, (labelBlock_numbered program next).append hrest⟩

/-- Literals of programs that are numbered one after the other are the same if their numbers are. -/
theorem lambda_eq_of_label_eq {programs : List Program} {next : Nat} {f g : Lambda Nat}
    (hf : f ∈ (labelPrograms next programs).flatMap Block.lambdas)
    (hg : g ∈ (labelPrograms next programs).flatMap Block.lambdas) (h : f.label = g.label) :
    f = g := by
  obtain ⟨after, hnumbered⟩ := labelPrograms_numbered programs next
  have hnodup : (((labelPrograms next programs).flatMap Block.lambdas).map Lambda.label).Nodup :=
    hnumbered.labels ▸ List.nodup_range'
  exact List.inj_on_of_nodup_map hnodup hf hg h

end Scriptlet
