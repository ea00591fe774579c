import Scriptlet.Token

/-!
# Operators

The operators that stand before an operand or between two. Each is one token, and an operator
between operands has a level: the higher it is, the tighter the operator binds.
-/

namespace Scriptlet

inductive PrefixOp where
  | minus | not
  deriving DecidableEq, Repr

namespace PrefixOp

def token : PrefixOp → Token
  | minus => .mark .minus
  | not => .keyword .not

def text (op : PrefixOp) : String :=
  op.token.text

end PrefixOp

inductive InfixOp where
  | add | sub | mul | div | mod
  | eq | ne | lt | gt | le | ge
  | and | or
  deriving DecidableEq, Repr

namespace InfixOp

def token : InfixOp → Token
  | add => .mark .plus
  | sub => .mark .minus
  | mul => .mark .star
  | div => .mark .slash
  | mod => .mark .percent
  | eq => .mark .equalEqual
  | ne => .mark .bangEqual
  | lt => .mark .lessThan
  | gt => .mark .greaterThan
  | le => .mark .lessEqual
  | ge => .mark .greaterEqual
  | and => .keyword .and
  | or => .keyword .or

def text (op : InfixOp) : String :=
  op.token.text

def ofToken? : Token → Option InfixOp
  | .mark .plus => some add
  | .mark .minus => some sub
  | .mark .star => some mul
  | .mark .slash => some div
  | .mark .percent => some mod
  | .mark .equalEqual => some eq
  | .mark .bangEqual => some ne
  | .mark .lessThan => some lt
  | .mark .greaterThan => some gt
  | .mark .lessEqual => some le
  | .mark .greaterEqual => some ge
  | .keyword .and => some and
  | .keyword .or => some or
  | _ => none

theorem ofToken?_eq_some_iff {t : Token} {op : InfixOp} :
    ofToken? t = some op ↔ t = op.token := by
  constructor
  · intro h
    unfold ofToken? at h
    split at h <;> cases h <;> rfl
  · rintro rfl
    cases op <;> rfl

/-- How tightly an operator binds: `or` least, then `and`, equality, order, sums, products. -/
def level : InfixOp → Nat
  | or => 1
  | and => 2
  | eq | ne => 3
  | lt | gt | le | ge => 4
  | add | sub => 5
  | mul | div | mod => 6

theorem level_pos (op : InfixOp) : 0 < op.level := by
  cases op <;> decide

end InfixOp

/-- The level of an operator before its operand: it binds tighter than all between two. Calls and
indexing bind tighter still. -/
def PrefixOp.level : Nat := 7

theorem InfixOp.level_lt_prefix (op : InfixOp) : op.level < PrefixOp.level := by
  cases op <;> decide

end Scriptlet
