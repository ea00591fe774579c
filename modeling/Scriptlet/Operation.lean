import Scriptlet.Fault

/-!
# Operators on values

What operators, indexing and calls need to know about values alone. Nothing here changes a list or a
scope: an operation gives a value, or the fault that says why there is none.

Between two integers, and between an integer and a truth value on its right, an operator means
arithmetic modulo `2 ^ 64`. Between two strings `+` joins them. All other operands count as truth
values, for which there are only comparison and the logical operators.
-/

namespace Scriptlet

def truthInt (b : Bool) : Int64 :=
  if b then 1 else 0

def PrefixOp.apply (lists : Lists) : PrefixOp → Value → Except Fault Value
  | .not, v => .ok (.bool (!v.truthy lists))
  | .minus, .int n => .ok (.int (-n))
  | .minus, v => .error (.prefixOperand .minus v)

namespace InfixOp

/-- Applies an operator to integers. Division truncates, and the remainder has the sign of the
left operand. -/
def onIntegers (op : InfixOp) (a b : Int64) : Except Fault Value :=
  match op with
  | add => .ok (.int (a + b))
  | sub => .ok (.int (a - b))
  | mul => .ok (.int (a * b))
  | div => if b = 0 then .error (.divisionByZero div a) else .ok (.int (a / b))
  | mod => if b = 0 then .error (.divisionByZero mod a) else .ok (.int (a % b))
  | lt => .ok (.bool (decide (a < b)))
  | le => .ok (.bool (decide (a ≤ b)))
  | gt => .ok (.bool (decide (b < a)))
  | ge => .ok (.bool (decide (b ≤ a)))
  | eq => .ok (.bool (decide (a = b)))
  | ne => .ok (.bool (decide (a ≠ b)))
  | and => .ok (.bool (a != 0 && b != 0))
  | or => .ok (.bool (a != 0 || b != 0))

/-- Applies an operator to values that are no numbers, by what they count as. -/
def onTruths (lists : Lists) (op : InfixOp) (l r : Value) : Except Fault Value :=
  match op with
  | eq => .ok (.bool (l.truthy lists == r.truthy lists))
  | ne => .ok (.bool (l.truthy lists != r.truthy lists))
  | and => .ok (.bool (l.truthy lists && r.truthy lists))
  | or => .ok (.bool (l.truthy lists || r.truthy lists))
  | op => .error (.infixOperands op l r)

def apply (lists : Lists) (op : InfixOp) (l r : Value) : Except Fault Value :=
  match l, r with
  | .str a, .str b => if op = add then .ok (.str (a ++ b)) else op.onTruths lists l r
  | .int a, .int b => op.onIntegers a b
  | .int a, .bool b => op.onIntegers a (truthInt b)
  | l, r => op.onTruths lists l r

end InfixOp

def Lists.element? (lists : Lists) (a : ListId) (position : Int64) : Option Value :=
  if 0 ≤ position.toInt then (lists.elements a)[position.toInt.toNat]? else none

/-- Looks up a position in a value. Only lists have positions, and only integers are positions. -/
def Value.index (lists : Lists) (target position : Value) : Except Fault Value :=
  match target, position with
  | .list a, .int i =>
    match lists.element? a i with
    | some v => .ok v
    | none => .error (.indexRange target i)
  | .list _, position => .error (.indexOperand position)
  | target, _ => .error (.indexTarget target)

def Closure.arityFault? (f : Closure) (got : Nat) : Option Fault :=
  if f.params.length = got then none else some (.arity f.params.length got)

end Scriptlet
