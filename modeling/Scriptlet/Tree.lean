import Scriptlet.Operator

/-!
# Programs as trees

Expressions and statements. A function literal carries a label of a type that the tree is
parametrised by. Programs as read have no labels (`Program`), so that equality of programs is
equality of what they say. Before a program runs, each literal gets a number of its own (`Code`),
because two function values are the same only if one literal made both.
-/

namespace Scriptlet

mutual

inductive Expr (ι : Type) where
  | ident (name : String)
  | int (value : Int64)
  | bool (value : Bool)
  | str (value : String)
  | nil
  | list (elements : List (Expr ι))
  | prefixOp (op : PrefixOp) (operand : Expr ι)
  | infixOp (op : InfixOp) (left right : Expr ι)
  | index (target position : Expr ι)
  | cond (condition : Expr ι) (consequence : List (Stmt ι)) (alternative : Option (List (Stmt ι)))
  | func (label : ι) (params : List String) (body : List (Stmt ι))
  | call (callee : Expr ι) (arguments : List (Expr ι))

inductive Stmt (ι : Type) where
  | var (name : String) (value : Expr ι)
  | ret (value : Expr ι)
  | expr (value : Expr ι)

end

/-- A sequence of statements: a whole program, a function body or a branch. -/
abbrev Block (ι : Type) := List (Stmt ι)

abbrev Program := Block Unit

/-- A program ready to run, its function literals numbered. -/
abbrev Code := Block Nat

variable {ι : Type}

def Stmt.isVar : Stmt ι → Bool
  | .var .. => true
  | _ => false

/-- Whether a block binds a name itself, not only within a nested block. -/
def Block.binds (block : Block ι) : Bool :=
  block.any Stmt.isVar

/-! ## Equality -/

variable [DecidableEq ι]

mutual

/-- Whether two expressions are the same tree. -/
def Expr.same : Expr ι → Expr ι → Bool
  | .ident a, .ident b => a == b
  | .int a, .int b => a == b
  | .bool a, .bool b => a == b
  | .str a, .str b => a == b
  | .nil, .nil => true
  | .list as, .list bs => sameExprs as bs
  | .prefixOp p a, .prefixOp q b => p == q && a.same b
  | .infixOp p a a', .infixOp q b b' => p == q && a.same b && a'.same b'
  | .index a a', .index b b' => a.same b && a'.same b'
  | .cond a t none, .cond b u none => a.same b && sameBlock t u
  | .cond a t (some e), .cond b u (some f) => a.same b && sameBlock t u && sameBlock e f
  | .func l ps s, .func m qs t => decide (l = m) && ps == qs && sameBlock s t
  | .call a as, .call b bs => a.same b && sameExprs as bs
  | _, _ => false

def sameExprs : List (Expr ι) → List (Expr ι) → Bool
  | [], [] => true
  | a :: as, b :: bs => a.same b && sameExprs as bs
  | _, _ => false

def Stmt.same : Stmt ι → Stmt ι → Bool
  | .var m a, .var n b => m == n && a.same b
  | .ret a, .ret b => a.same b
  | .expr a, .expr b => a.same b
  | _, _ => false

def sameBlock : Block ι → Block ι → Bool
  | [], [] => true
  | a :: as, b :: bs => a.same b && sameBlock as bs
  | _, _ => false

end

mutual

theorem Expr.same_iff : ∀ a b : Expr ι, a.same b = true ↔ a = b
  | .ident _, b | .int _, b | .bool _, b | .str _, b | .nil, b => by
    cases b <;> simp [Expr.same]
  | .list as, b => by cases b <;> simp [Expr.same, sameExprs_iff as]
  | .prefixOp _ a, b => by cases b <;> simp [Expr.same, Expr.same_iff a]
  | .infixOp _ a a', b => by
    cases b <;> simp [Expr.same, Expr.same_iff a, Expr.same_iff a', and_assoc]
  | .index a a', b => by cases b <;> simp [Expr.same, Expr.same_iff a, Expr.same_iff a']
  | .cond a t none, b => by
    rcases b with _ | _ | _ | _ | _ | _ | _ | _ | _ | ⟨_, _, _ | _⟩ | _ | _ <;>
      simp [Expr.same, Expr.same_iff a, sameBlock_iff t]
  | .cond a t (some e), b => by
    rcases b with _ | _ | _ | _ | _ | _ | _ | _ | _ | ⟨_, _, _ | _⟩ | _ | _ <;>
      simp [Expr.same, Expr.same_iff a, sameBlock_iff t, sameBlock_iff e, and_assoc]
  | .func _ _ s, b => by cases b <;> simp [Expr.same, sameBlock_iff s, and_assoc]
  | .call a as, b => by cases b <;> simp [Expr.same, Expr.same_iff a, sameExprs_iff as]

theorem sameExprs_iff : ∀ as bs : List (Expr ι), sameExprs as bs = true ↔ as = bs
  | [], bs => by cases bs <;> simp [sameExprs]
  | a :: as, bs => by cases bs <;> simp [sameExprs, Expr.same_iff a, sameExprs_iff as]

theorem Stmt.same_iff : ∀ a b : Stmt ι, a.same b = true ↔ a = b
  | .var _ a, b => by cases b <;> simp [Stmt.same, Expr.same_iff a]
  | .ret a, b => by cases b <;> simp [Stmt.same, Expr.same_iff a]
  | .expr a, b => by cases b <;> simp [Stmt.same, Expr.same_iff a]

theorem sameBlock_iff : ∀ as bs : Block ι, sameBlock as bs = true ↔ as = bs
  | [], bs => by cases bs <;> simp [sameBlock]
  | a :: as, bs => by cases bs <;> simp [sameBlock, Stmt.same_iff a, sameBlock_iff as]

end

instance : DecidableEq (Expr ι) := fun a b => decidable_of_iff _ (Expr.same_iff a b)

instance : DecidableEq (Stmt ι) := fun a b => decidable_of_iff _ (Stmt.same_iff a b)

end Scriptlet
