import Scriptlet.Value.Text

/-!
# Why a value is nil

Evaluation never fails. Where something cannot be computed, the result is nil and a fault says
why. A fault holds the values it is about; its message shows them as they are when it is asked for,
which for a list may differ from how they were.
-/

namespace Scriptlet

inductive Fault where
  | prefixOperand (op : PrefixOp) (operand : Value)
  | infixOperands (op : InfixOp) (left right : Value)
  | divisionByZero (op : InfixOp) (left : Int64)
  | unbound (name : String)
  | notAFunction (callee : Value)
  | arity (expected got : Nat)
  | argument (builtin : String) (argument : Value)
  | emptyList (builtin : String)
  | indexTarget (target : Value)
  | indexOperand (position : Value)
  | indexRange (list : Value) (position : Int64)
  | output (reason : String)
  deriving DecidableEq

namespace Fault

def operandText (lists : Lists) (v : Value) : String :=
  "\x60" ++ v.kind.text ++ "\x60 (" ++ v.display lists ++ ")"

def message (lists : Lists) : Fault → String
  | prefixOperand op v =>
    "unsupported operand type for " ++ op.text ++ " operator: " ++ operandText lists v
  | infixOperands op l r =>
    "unsupported operand type(s) for " ++ op.text ++ " operator: " ++ operandText lists l ++
      " and " ++ operandText lists r
  | divisionByZero op l => "division by zero: " ++ decimal l ++ " " ++ op.text ++ " 0"
  | unbound name => "identifier '" ++ name ++ "' not found"
  | notAFunction v => v.display lists ++ " is not a function"
  | arity expected got =>
    "expected " ++ toString expected ++ " argument(s) but got " ++ toString got
  | argument builtin v =>
    "unsupported argument type for " ++ builtin ++ " function: " ++ operandText lists v
  | emptyList builtin => builtin ++ " called on an empty list"
  | indexTarget v => "index operator not supported for " ++ operandText lists v
  | indexOperand v => "unsupported index operand type: " ++ operandText lists v
  | indexRange list i =>
    "index " ++ decimal i ++ " out of bounds for list " ++ list.display lists
  | output reason => "could not write output: " ++ reason

end Fault

end Scriptlet
