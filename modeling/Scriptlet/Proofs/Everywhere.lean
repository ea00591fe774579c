import Scriptlet.Tree.Printer

/-!
# What holds everywhere in a tree

A check of expressions and one of sequences of statements, made at every place of a tree: at each
expression, and at each body and branch as a whole.
-/

namespace Scriptlet

variable {ι : Type}

section

variable (P : Expr ι → Bool) (B : Block ι → Bool)

mutual

/-- Whether `P` holds of an expression and of all within it, and `B` of all blocks within it. -/
def Expr.everywhere : Expr ι → Bool
  | .list es => P (.list es) && exprsEverywhere es
  | .prefixOp op e => P (.prefixOp op e) && e.everywhere
  | .infixOp op l r => P (.infixOp op l r) && l.everywhere && r.everywhere
  | .index e p => P (.index e p) && e.everywhere && p.everywhere
  | .cond c b none => P (.cond c b none) && c.everywhere && (B b && stmtsEverywhere b)
  | .cond c b (some d) =>
    P (.cond c b (some d)) && c.everywhere && (B b && stmtsEverywhere b) &&
      (B d && stmtsEverywhere d)
  | .func label params b => P (.func label params b) && (B b && stmtsEverywhere b)
  | .call f es => P (.call f es) && f.everywhere && exprsEverywhere es
  | leaf => P leaf

def exprsEverywhere : List (Expr ι) → Bool
  | [] => true
  | e :: es => e.everywhere && exprsEverywhere es

def Stmt.everywhere : Stmt ι → Bool
  | .var _ e => e.everywhere
  | .ret e => e.everywhere
  | .expr e => e.everywhere

def stmtsEverywhere : List (Stmt ι) → Bool
  | [] => true
  | s :: ss => s.everywhere && stmtsEverywhere ss

end

def Block.everywhere (b : Block ι) : Bool :=
  B b && stmtsEverywhere P B b

end

/-! ## Two checks at once -/

section

variable {P Q : Expr ι → Bool} {B D : Block ι → Bool}

mutual

theorem Expr.everywhere_and : ∀ e : Expr ι, e.everywhere P B = true → e.everywhere Q D = true →
    e.everywhere (fun e => P e && Q e) (fun b => B b && D b) = true
  | .ident _ | .int _ | .bool _ | .str _ | .nil => by simp_all [Expr.everywhere]
  | .list es => by
    have ih := exprsEverywhere_and es
    simp_all [Expr.everywhere]
  | .prefixOp _ e => by
    have ih := e.everywhere_and
    simp_all [Expr.everywhere]
  | .infixOp _ l r => by
    have ihl := l.everywhere_and
    have ihr := r.everywhere_and
    simp_all [Expr.everywhere]
  | .index e p => by
    have ihe := e.everywhere_and
    have ihp := p.everywhere_and
    simp_all [Expr.everywhere]
  | .cond c b none => by
    have ihc := c.everywhere_and
    have ihb := stmtsEverywhere_and b
    simp_all [Expr.everywhere]
  | .cond c b (some d) => by
    have ihc := c.everywhere_and
    have ihb := stmtsEverywhere_and b
    have ihd := stmtsEverywhere_and d
    simp_all [Expr.everywhere]
  | .func _ _ b => by
    have ih := stmtsEverywhere_and b
    simp_all [Expr.everywhere]
  | .call f es => by
    have ihf := f.everywhere_and
    have ihes := exprsEverywhere_and es
    simp_all [Expr.everywhere]

theorem exprsEverywhere_and : ∀ es : List (Expr ι), exprsEverywhere P B es = true →
    exprsEverywhere Q D es = true →
    exprsEverywhere (fun e => P e && Q e) (fun b => B b && D b) es = true
  | [] => by simp [exprsEverywhere]
  | e :: es => by
    have ihe := e.everywhere_and
    have ihes := exprsEverywhere_and es
    simp_all [exprsEverywhere]

theorem Stmt.everywhere_and : ∀ s : Stmt ι, s.everywhere P B = true → s.everywhere Q D = true →
    s.everywhere (fun e => P e && Q e) (fun b => B b && D b) = true
  | .var _ e | .ret e | .expr e => by
    have ih := e.everywhere_and
    simp_all [Stmt.everywhere]

theorem stmtsEverywhere_and : ∀ ss : List (Stmt ι), stmtsEverywhere P B ss = true →
    stmtsEverywhere Q D ss = true →
    stmtsEverywhere (fun e => P e && Q e) (fun b => B b && D b) ss = true
  | [] => by simp [stmtsEverywhere]
  | s :: ss => by
    have ihs := s.everywhere_and
    have ihss := stmtsEverywhere_and ss
    simp_all [stmtsEverywhere]

end

theorem Block.everywhere_and {b : Block ι} (h : b.everywhere P B = true)
    (h' : b.everywhere Q D = true) :
    b.everywhere (fun e => P e && Q e) (fun b => B b && D b) = true := by
  simp only [Block.everywhere, Bool.and_eq_true] at h h' ⊢
  exact ⟨⟨h.1, h'.1⟩, stmtsEverywhere_and b h.2 h'.2⟩

end

end Scriptlet
