import Scriptlet.Text.Literals
import Scriptlet.Tree

/-!
# The grammar of programs

Which rows of tokens are programs, and which tree each of them stands for, said without reading.
There is one relation for each category of the grammar. Operators between two operands come in
layers: both operands of one in a layer are of that layer or a tighter one, and the right one of a
tighter one, so that operators of one layer group to the left.

A statement may end without a semicolon, but not in front of a token that could go on with it
(`Ending`). As that depends on what follows, a statement is related to the rest of its sequence too.
-/

namespace Scriptlet.Grammar

/-- The operators between two operands, those that bind loosest first. -/
def layers : List (List InfixOp) :=
  [[.or], [.and], [.eq, .ne], [.lt, .gt, .le, .ge], [.add, .sub], [.mul, .div, .mod]]

def layer (k : Nat) : List InfixOp :=
  layers.getD k []

theorem mem_layer_iff {op : InfixOp} {k : Nat} : op ∈ layer k ↔ op.level = k + 1 := by
  unfold layer layers
  rcases k with _ | _ | _ | _ | _ | _ | k
  all_goals cases op <;> simp [InfixOp.level]

inductive Continues : Token → Prop
  | operator (op : InfixOp) : Continues op.token
  | call : Continues (.mark .leftParen)
  | index : Continues (.mark .leftBracket)

/-- How a statement ends behind its expression, in front of the rest of its sequence. -/
inductive Ending : List Token → List Token → Prop
  | semicolon (rest : List Token) : Ending [.mark .semicolon] rest
  | bare {rest : List Token} (h : ∀ t ∈ rest.head?, ¬ Continues t) : Ending [] rest

def enclosed (opening closing : Mark) (ts : List Token) : List Token :=
  .mark opening :: (ts ++ [.mark closing])

def parens (ts : List Token) : List Token :=
  enclosed .leftParen .rightParen ts

def brackets (ts : List Token) : List Token :=
  enclosed .leftBracket .rightBracket ts

def braces (ts : List Token) : List Token :=
  enclosed .leftBrace .rightBrace ts

def parameterTokens (names : List String) : List Token :=
  (names.map Token.identifier).intersperse (.mark .comma)

mutual

/-- Statements one after the other, with any number of semicolons between them. -/
inductive Statements : List Token → Program → Prop
  | nil : Statements [] []
  | semicolon {ts p} (h : Statements ts p) : Statements (.mark .semicolon :: ts) p
  | cons {ts rest s p} (hs : Statement ts s rest) (hp : Statements rest p) :
      Statements (ts ++ rest) (s :: p)

inductive Statement : List Token → Stmt Unit → List Token → Prop
  | var {name ts e ending rest} (he : Binary 0 ts e) (h : Ending ending rest) :
      Statement (.keyword .var :: .identifier name :: .mark .assign :: (ts ++ ending))
        (.var name e) rest
  | ret {ts e ending rest} (he : Binary 0 ts e) (h : Ending ending rest) :
      Statement (.keyword .return_ :: (ts ++ ending)) (.ret e) rest
  /-- A `return` without a value ends with its sequence or with a semicolon. -/
  | retNil {rest} (h : ∀ t ∈ rest.head?, t = .mark .semicolon) :
      Statement [.keyword .return_] (.ret .nil) rest
  | retNilSemicolon {rest} : Statement [.keyword .return_, .mark .semicolon] (.ret .nil) rest
  | expr {ts e ending rest} (he : Binary 0 ts e) (h : Ending ending rest) :
      Statement (ts ++ ending) (.expr e) rest

/-- Expressions whose operators are of a layer or of tighter ones. All expressions are of layer
`0`. -/
inductive Binary : Nat → List Token → Expr Unit → Prop
  | infixOp {k op ts us l r} (hop : op ∈ layer k) (hl : Binary k ts l) (hr : Binary (k + 1) us r) :
      Binary k (ts ++ op.token :: us) (.infixOp op l r)
  | tighter {k ts e} (hk : k < layers.length) (h : Binary (k + 1) ts e) : Binary k ts e
  | unary {ts e} (h : Unary ts e) : Binary layers.length ts e

inductive Unary : List Token → Expr Unit → Prop
  | prefixOp {op ts e} (h : Unary ts e) : Unary (op.token :: ts) (.prefixOp op e)
  | suffixed {ts e} (h : Suffixed ts e) : Unary ts e

inductive Suffixed : List Token → Expr Unit → Prop
  | primary {ts e} (h : Primary ts e) : Suffixed ts e
  | call {ts us f args} (hf : Suffixed ts f) (hargs : Arguments us args) :
      Suffixed (ts ++ parens us) (.call f args)
  | index {ts us target position} (ht : Suffixed ts target) (hp : Binary 0 us position) :
      Suffixed (ts ++ brackets us) (.index target position)

/-- Expressions that begin and end with tokens of their own. -/
inductive Primary : List Token → Expr Unit → Prop
  | ident {name} : Primary [.identifier name] (.ident name)
  /-- At most `2 ^ 63 - 1`. -/
  | int {digits} (h : Text.decimalValue digits.toList ≤ 9223372036854775807) :
      Primary [.integer digits] (.int (Int64.ofNat (Text.decimalValue digits.toList)))
  | str {value} : Primary [.string value] (.str value)
  | true_ : Primary [.keyword .true_] (.bool true)
  | false_ : Primary [.keyword .false_] (.bool false)
  | nil : Primary [.keyword .nil] .nil
  | group {ts e} (h : Binary 0 ts e) : Primary (parens ts) e
  | list {ts es} (h : Arguments ts es) : Primary (brackets ts) (.list es)
  | cond {cs ts c b} (hc : Binary 0 cs c) (hb : Statements ts b) :
      Primary (.keyword .if_ :: (parens cs ++ braces ts)) (.cond c b none)
  | condElse {cs ts us c b b'} (hc : Binary 0 cs c) (hb : Statements ts b)
      (hb' : Statements us b') :
      Primary (.keyword .if_ :: (parens cs ++ braces ts ++ .keyword .else_ :: braces us))
        (.cond c b (some b'))
  | func {params ts b} (hb : Statements ts b) :
      Primary (.keyword .func :: (parens (parameterTokens params) ++ braces ts))
        (.func () params b)

inductive Arguments : List Token → List (Expr Unit) → Prop
  | nil : Arguments [] []
  | cons {ts us e es} (he : Binary 0 ts e) (hes : MoreArguments us es) :
      Arguments (ts ++ us) (e :: es)

inductive MoreArguments : List Token → List (Expr Unit) → Prop
  | nil : MoreArguments [] []
  | cons {ts us e es} (he : Binary 0 ts e) (hes : MoreArguments us es) :
      MoreArguments (.mark .comma :: (ts ++ us)) (e :: es)

end

/-! ## First tokens -/

inductive Starts : Token → Prop
  | identifier (name : String) : Starts (.identifier name)
  | integer (digits : String) : Starts (.integer digits)
  | string (value : String) : Starts (.string value)
  | true_ : Starts (.keyword .true_)
  | false_ : Starts (.keyword .false_)
  | nil : Starts (.keyword .nil)
  | prefixOp (op : PrefixOp) : Starts op.token
  | group : Starts (.mark .leftParen)
  | list : Starts (.mark .leftBracket)
  | cond : Starts (.keyword .if_)
  | func : Starts (.keyword .func)

theorem Primary.starts {ts : List Token} {e : Expr Unit} (h : Primary ts e) :
    ∃ t us, ts = t :: us ∧ Starts t := by
  cases h with
  | ident => exact ⟨_, _, rfl, .identifier _⟩
  | int => exact ⟨_, _, rfl, .integer _⟩
  | str => exact ⟨_, _, rfl, .string _⟩
  | true_ => exact ⟨_, _, rfl, .true_⟩
  | false_ => exact ⟨_, _, rfl, .false_⟩
  | nil => exact ⟨_, _, rfl, .nil⟩
  | group => exact ⟨_, _, rfl, .group⟩
  | list => exact ⟨_, _, rfl, .list⟩
  | cond => exact ⟨_, _, rfl, .cond⟩
  | condElse => exact ⟨_, _, rfl, .cond⟩
  | func => exact ⟨_, _, rfl, .func⟩

mutual

theorem Binary.starts {k : Nat} {ts : List Token} {e : Expr Unit} :
    Binary k ts e → ∃ t us, ts = t :: us ∧ Starts t
  | .infixOp _ hl _ => by
    obtain ⟨t, us, rfl, ht⟩ := hl.starts
    exact ⟨t, _, rfl, ht⟩
  | .tighter _ h => h.starts
  | .unary h => h.starts

theorem Unary.starts {ts : List Token} {e : Expr Unit} :
    Unary ts e → ∃ t us, ts = t :: us ∧ Starts t
  | .prefixOp _ => ⟨_, _, rfl, .prefixOp _⟩
  | .suffixed h => h.starts

theorem Suffixed.starts {ts : List Token} {e : Expr Unit} :
    Suffixed ts e → ∃ t us, ts = t :: us ∧ Starts t
  | .primary h => h.starts
  | .call hf _ => by
    obtain ⟨t, us, rfl, ht⟩ := hf.starts
    exact ⟨t, _, rfl, ht⟩
  | .index h _ => by
    obtain ⟨t, us, rfl, ht⟩ := h.starts
    exact ⟨t, _, rfl, ht⟩

end

inductive StartsStatement : Token → Prop
  | var : StartsStatement (.keyword .var)
  | ret : StartsStatement (.keyword .return_)
  | expr {t : Token} (h : Starts t) : StartsStatement t

theorem Statement.starts {ts rest : List Token} {s : Stmt Unit} (h : Statement ts s rest) :
    ∃ t us, ts = t :: us ∧ StartsStatement t := by
  cases h with
  | var => exact ⟨_, _, rfl, .var⟩
  | ret => exact ⟨_, _, rfl, .ret⟩
  | retNil => exact ⟨_, _, rfl, .ret⟩
  | retNilSemicolon => exact ⟨_, _, rfl, .ret⟩
  | expr he =>
    obtain ⟨t, us, rfl, ht⟩ := he.starts
    exact ⟨t, _, rfl, .expr ht⟩

theorem Statements.starts {ts : List Token} {p : Program} (h : Statements ts p) :
    ∀ t ∈ ts.head?, t = .mark .semicolon ∨ StartsStatement t := by
  cases h with
  | nil => simp
  | semicolon => simp
  | cons hs =>
    obtain ⟨t, us, rfl, ht⟩ := hs.starts
    simpa using .inr ht

theorem Statements.eq_nil {p : Program} (h : Statements [] p) : p = [] := by
  generalize hts : ([] : List Token) = ts at h
  cases h with
  | nil => rfl
  | semicolon => simp at hts
  | cons hs =>
    obtain ⟨t, us, rfl, -⟩ := hs.starts
    simp at hts

end Scriptlet.Grammar
