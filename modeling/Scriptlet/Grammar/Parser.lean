import Scriptlet.Grammar.Cursor
import Scriptlet.Text.Literals
import Scriptlet.Token.Lexer
import Scriptlet.Tree

/-!
# Reading programs

Statements are read one after the other; a malformed one is recorded and left out, at every depth.
An expression is an operand, followed by calls, indexing and operators as long as those bind
tighter than what stands in front of it. As an operator's right side is read at the operator's own
level, all operators group to the left.

All readers share one fuel. At most four of them call one another before a token is taken, so
`Stream.fuel` is enough for every row of tokens.
-/

namespace Scriptlet

open Parse Text

def Token.endsReturn : Token → Bool
  | .mark .semicolon | .mark .rightBrace | .eof => true
  | _ => false

/-- Whether no statement follows. A closing brace ends the statements of a block only. -/
def Token.endsBlock (inBlock : Bool) : Token → Bool
  | .eof => true
  | .mark .rightBrace => inBlock
  | _ => false

def moreParameters (stop : Located Token) : Nat → Parse (List String)
  | 0 => exhausted
  | fuel + 1 => do
    let t ← peek stop
    if t.value = .mark .comma then
      skip stop
      let name ← expectIdentifier stop
      let names ← moreParameters stop fuel
      return name :: names
    else
      expect stop .rightParen
      return []

def parameters (stop : Located Token) (fuel : Nat) : Parse (List String) := do
  let t ← peek stop
  if t.value = .mark .rightParen then
    skip stop
    return []
  else
    let name ← expectIdentifier stop
    let names ← moreParameters stop fuel
    return name :: names

mutual

/-- The statements up to the end of their block or of the text. Malformed ones are left out. -/
def statements (stop : Located Token) (inBlock : Bool) : Nat → Parse Program
  | 0 => exhausted
  | fuel + 1 => do
    let t ← peek stop
    if t.value.endsBlock inBlock then
      return []
    else if t.value = .mark .semicolon then
      skip stop
      statements stop inBlock fuel
    else
      match ← attempt (statement stop fuel) with
      | .ok s =>
        let ss ← statements stop inBlock fuel
        return s :: ss
      | .error e =>
        recover inBlock e
        statements stop inBlock fuel

def statement (stop : Located Token) : Nat → Parse (Stmt Unit)
  | 0 => exhausted
  | fuel + 1 => do
    let t ← peek stop
    match t.value with
    | .keyword .var =>
      skip stop
      let name ← expectIdentifier stop
      expect stop .assign
      let value ← expression stop 0 fuel
      skipSemicolon stop
      return .var name value
    | .keyword .return_ =>
      skip stop
      let next ← peek stop
      if next.value.endsReturn then
        skipSemicolon stop
        return .ret .nil
      else
        let value ← expression stop 0 fuel
        skipSemicolon stop
        return .ret value
    | _ =>
      let value ← expression stop 0 fuel
      skipSemicolon stop
      return .expr value

def block (stop : Located Token) : Nat → Parse Program
  | 0 => exhausted
  | fuel + 1 => do
    let body ← statements stop true fuel
    let t ← read stop
    if t.value = .mark .rightBrace then return body
    else fail (.expected (.mark .rightBrace) t)

/-- An expression, with those operators only that bind tighter than `level`. -/
def expression (stop : Located Token) (level : Nat) : Nat → Parse (Expr Unit)
  | 0 => exhausted
  | fuel + 1 => do
    let t ← read stop
    let left ← operand stop t fuel
    continuation stop level left fuel

def operand (stop : Located Token) (t : Located Token) : Nat → Parse (Expr Unit)
  | 0 => exhausted
  | fuel + 1 =>
    match t.value with
    | .identifier name => return .ident name
    | .integer digits =>
      match integerLiteral? digits with
      | some n => return .int n
      | none => fail (.integerRange t)
    | .string value => return .str value
    | .keyword .true_ => return .bool true
    | .keyword .false_ => return .bool false
    | .keyword .nil => return .nil
    | .mark .minus => do
      let e ← expression stop PrefixOp.level fuel
      return .prefixOp .minus e
    | .keyword .not => do
      let e ← expression stop PrefixOp.level fuel
      return .prefixOp .not e
    | .mark .leftParen => do
      let e ← expression stop 0 fuel
      expect stop .rightParen
      return e
    | .mark .leftBracket => do
      let elements ← items stop .rightBracket fuel
      return .list elements
    | .keyword .if_ => do
      expect stop .leftParen
      let condition ← expression stop 0 fuel
      expect stop .rightParen
      expect stop .leftBrace
      let consequence ← block stop fuel
      let next ← peek stop
      if next.value = .keyword .else_ then
        skip stop
        expect stop .leftBrace
        let alternative ← block stop fuel
        return .cond condition consequence (some alternative)
      else
        return .cond condition consequence none
    | .keyword .func => do
      expect stop .leftParen
      let params ← parameters stop fuel
      expect stop .leftBrace
      let body ← block stop fuel
      return .func () params body
    | .illegal _ => fail (.illegal t)
    | _ => fail (.noOperand t)

/-- What may follow an operand: calls, indexing, and operators that bind tighter than `level`. -/
def continuation (stop : Located Token) (level : Nat) (left : Expr Unit) :
    Nat → Parse (Expr Unit)
  | 0 => exhausted
  | fuel + 1 => do
    let t ← peek stop
    match t.value with
    | .mark .leftParen =>
      skip stop
      let arguments ← items stop .rightParen fuel
      continuation stop level (.call left arguments) fuel
    | .mark .leftBracket =>
      skip stop
      let position ← expression stop 0 fuel
      expect stop .rightBracket
      continuation stop level (.index left position) fuel
    | other =>
      match InfixOp.ofToken? other with
      | some op =>
        if level < op.level then
          skip stop
          let right ← expression stop op.level fuel
          continuation stop level (.infixOp op left right) fuel
        else
          return left
      | none => return left

def items (stop : Located Token) (close : Mark) : Nat → Parse (List (Expr Unit))
  | 0 => exhausted
  | fuel + 1 => do
    let t ← peek stop
    if t.value = .mark close then
      skip stop
      return []
    else
      let e ← expression stop 0 fuel
      let es ← moreItems stop close fuel
      return e :: es

def moreItems (stop : Located Token) (close : Mark) : Nat → Parse (List (Expr Unit))
  | 0 => exhausted
  | fuel + 1 => do
    let t ← peek stop
    if t.value = .mark .comma then
      skip stop
      let e ← expression stop 0 fuel
      let es ← moreItems stop close fuel
      return e :: es
    else
      expect stop close
      return []

end

/-- What reading a program gives: the statements that could be read, and an error for each one
that could not. -/
structure Parsed where
  program : Program
  errors : List ParseError
  deriving DecidableEq

namespace Stream

def fuel (s : Stream) : Nat :=
  8 * (s.tokens.length + 2)

def parse (s : Stream) : Parsed :=
  match statements s.eof false s.fuel ⟨s.eof, s.tokens, []⟩ with
  | some (.ok program, c) => ⟨program, c.errors.reverse⟩
  | some (.error e, c) => ⟨[], (e :: c.errors).reverse⟩
  | none => ⟨[], []⟩

end Stream

def parse (source : String) : Parsed :=
  (Stream.ofText source).parse

end Scriptlet
