import Scriptlet.Tree

/-!
# Numbering function literals

`Program.label` gives every function literal of a program a number of its own, counting up from
one that the caller has not used yet, and says which number comes next. Printing and everything
else about the program stays the same.
-/

namespace Scriptlet

mutual

/-- Numbers the function literals of an expression, an outer one before those in its body. -/
def Expr.label (next : Nat) : Expr Unit → Expr Nat × Nat
  | .ident name => (.ident name, next)
  | .int value => (.int value, next)
  | .bool value => (.bool value, next)
  | .str value => (.str value, next)
  | .nil => (.nil, next)
  | .list elements =>
    let (elements, next) := labelExprs next elements
    (.list elements, next)
  | .prefixOp op operand =>
    let (operand, next) := operand.label next
    (.prefixOp op operand, next)
  | .infixOp op left right =>
    let (left, next) := left.label next
    let (right, next) := right.label next
    (.infixOp op left right, next)
  | .index target position =>
    let (target, next) := target.label next
    let (position, next) := position.label next
    (.index target position, next)
  | .cond condition consequence none =>
    let (condition, next) := condition.label next
    let (consequence, next) := labelBlock next consequence
    (.cond condition consequence none, next)
  | .cond condition consequence (some alternative) =>
    let (condition, next) := condition.label next
    let (consequence, next) := labelBlock next consequence
    let (alternative, next) := labelBlock next alternative
    (.cond condition consequence (some alternative), next)
  | .func _ params body =>
    let (body, after) := labelBlock (next + 1) body
    (.func next params body, after)
  | .call callee arguments =>
    let (callee, next) := callee.label next
    let (arguments, next) := labelExprs next arguments
    (.call callee arguments, next)

def labelExprs (next : Nat) : List (Expr Unit) → List (Expr Nat) × Nat
  | [] => ([], next)
  | e :: es =>
    let (e, next) := e.label next
    let (es, next) := labelExprs next es
    (e :: es, next)

def Stmt.label (next : Nat) : Stmt Unit → Stmt Nat × Nat
  | .var name value =>
    let (value, next) := value.label next
    (.var name value, next)
  | .ret value =>
    let (value, next) := value.label next
    (.ret value, next)
  | .expr value =>
    let (value, next) := value.label next
    (.expr value, next)

def labelBlock (next : Nat) : Block Unit → Block Nat × Nat
  | [] => ([], next)
  | s :: ss =>
    let (s, next) := s.label next
    let (ss, next) := labelBlock next ss
    (s :: ss, next)

end

/-- A program ready to run, its function literals numbered from `next` on, and the first number
that is still free. -/
def Program.label (next : Nat) (program : Program) : Code × Nat :=
  labelBlock next program

end Scriptlet
