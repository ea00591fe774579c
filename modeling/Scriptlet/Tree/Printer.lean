import Scriptlet.Tree
import Scriptlet.Text.Literals

/-!
# Printing programs

A program is printed with every operator in brackets and every string escaped, so that the text
says how the program was understood. Statements follow each other with nothing between them.

A text is written in parts, one behind the other, and what takes them may refuse one: `Expr.pieces`
says which parts these are. Together they are the text (`Expr.join_pieces`).
-/

namespace Scriptlet

open Text

variable {ι : Type}

def decimal (n : Int64) : String :=
  toString n.toInt

def truthText (b : Bool) : String :=
  if b then Keyword.true_.text else Keyword.false_.text

def commaSeparated (texts : List String) : String :=
  ", ".intercalate texts

mutual

def Expr.text : Expr ι → String
  | .ident name => name
  | .int value => decimal value
  | .bool value => truthText value
  | .str value => quoted value
  | .nil => Keyword.nil.text
  | .list elements => "[" ++ commaSeparated (exprTexts elements) ++ "]"
  | .prefixOp op operand => "(" ++ op.text ++ "(" ++ operand.text ++ "))"
  | .infixOp op left right => "(" ++ left.text ++ " " ++ op.text ++ " " ++ right.text ++ ")"
  | .index target position => "(" ++ target.text ++ "[" ++ position.text ++ "])"
  | .cond condition consequence none =>
    "if " ++ condition.text ++ " \x7b" ++ blockText consequence ++ "\x7d"
  | .cond condition consequence (some alternative) =>
    "if " ++ condition.text ++ " \x7b" ++ blockText consequence ++ "\x7d else \x7b" ++
      blockText alternative ++ "\x7d"
  | .func _ params body =>
    "func(" ++ commaSeparated params ++ ") \x7b" ++ blockText body ++ "\x7d"
  | .call callee arguments => callee.text ++ "(" ++ commaSeparated (exprTexts arguments) ++ ")"

def exprTexts : List (Expr ι) → List String
  | [] => []
  | e :: es => e.text :: exprTexts es

/-- A statement as text. Only a statement that starts with a keyword ends in a semicolon. -/
def Stmt.text : Stmt ι → String
  | .var name value => "var " ++ name ++ " = " ++ value.text ++ ";"
  | .ret value => "return " ++ value.text ++ ";"
  | .expr value => value.text

/-- Statements as one text, with nothing between them and no braces around them. -/
def blockText : Block ι → String
  | [] => ""
  | s :: ss => s.text ++ blockText ss

end

theorem Expr.text_call (callee : Expr ι) (arguments : List (Expr ι)) :
    (Expr.call callee arguments).text =
      callee.text ++ "(" ++ commaSeparated (exprTexts arguments) ++ ")" := by
  rw [Expr.text]

def Program.text (program : Program) : String :=
  blockText program

/-! ## Parts -/

/-- The sign of an integer, if it is negative, and its digits. -/
def decimalPieces (n : Int64) : List String :=
  if n.toInt < 0 then ["-", toString n.toInt.natAbs] else [toString n.toInt.natAbs]

mutual

/-- The parts in which an expression is written. What a list or a call has between its brackets is
one part, with all commas. -/
def Expr.pieces : Expr ι → List String
  | .ident name => [name]
  | .int value => decimalPieces value
  | .bool value => [truthText value]
  | .str value => ["\"", String.ofList (escape value.toList), "\""]
  | .nil => [Keyword.nil.text]
  | .list elements => ["[", commaSeparated (exprTexts elements), "]"]
  | .prefixOp op operand => ["(", op.text, "("] ++ operand.pieces ++ ["))"]
  | .infixOp op left right => ["("] ++ left.pieces ++ [" ", op.text, " "] ++ right.pieces ++ [")"]
  | .index target position => ["("] ++ target.pieces ++ ["["] ++ position.pieces ++ ["])"]
  | .cond condition consequence none =>
    ["if "] ++ condition.pieces ++ [" ", "\x7b"] ++ blockPieces consequence ++ ["\x7d"]
  | .cond condition consequence (some alternative) =>
    ["if "] ++ condition.pieces ++ [" ", "\x7b"] ++ blockPieces consequence ++
      ["\x7d", " else ", "\x7b"] ++ blockPieces alternative ++ ["\x7d"]
  | .func _ params body =>
    [Keyword.func.text, "(", commaSeparated params, ") ", "\x7b"] ++ blockPieces body ++ ["\x7d"]
  | .call callee arguments =>
    callee.pieces ++ ["(", commaSeparated (exprTexts arguments), ")"]

def Stmt.pieces : Stmt ι → List String
  | .var name value => [Keyword.var.text, " ", name, " = "] ++ value.pieces ++ [";"]
  | .ret value => [Keyword.return_.text, " "] ++ value.pieces ++ [";"]
  | .expr value => value.pieces

def blockPieces : Block ι → List String
  | [] => []
  | s :: ss => s.pieces ++ blockPieces ss

end

theorem join_decimalPieces (n : Int64) : String.join (decimalPieces n) = decimal n := by
  rw [decimalPieces, decimal]
  cases n.toInt with
  | ofNat k =>
    have hk : ¬Int.ofNat k < 0 := Int.not_lt.2 (Int.natCast_nonneg k)
    rw [if_neg hk, String.join_cons, String.join_nil, String.append_empty]
    rfl
  | negSucc k =>
    rw [if_pos (Int.negSucc_lt_zero k), String.join_cons, String.join_cons, String.join_nil,
      String.append_empty]
    rfl

section

-- Texts are compared as lists of characters, in which literals fall apart.
attribute [local simp] Expr.pieces Expr.text Stmt.pieces Stmt.text String.join_cons
  String.join_append Keyword.text quoted

mutual

theorem Expr.join_pieces : ∀ e : Expr ι, String.join e.pieces = e.text
  | .ident _ | .bool _ | .nil | .str _ | .list _ => by simp [← String.toList_inj]
  | .int n => by rw [Expr.pieces, Expr.text, join_decimalPieces]
  | .prefixOp _ e => by simp [← String.toList_inj, e.join_pieces]
  | .infixOp _ l r => by simp [← String.toList_inj, l.join_pieces, r.join_pieces]
  | .index t p => by simp [← String.toList_inj, t.join_pieces, p.join_pieces]
  | .cond c b none => by simp [← String.toList_inj, c.join_pieces, join_blockPieces b]
  | .cond c b (some d) => by
    simp [← String.toList_inj, c.join_pieces, join_blockPieces b, join_blockPieces d]
  | .func _ _ b => by simp [← String.toList_inj, join_blockPieces b]
  | .call f _ => by simp [← String.toList_inj, f.join_pieces]

theorem Stmt.join_pieces : ∀ s : Stmt ι, String.join s.pieces = s.text
  | .var _ e | .ret e => by simp [← String.toList_inj, e.join_pieces]
  | .expr e => by rw [Stmt.pieces, Stmt.text, e.join_pieces]

theorem join_blockPieces : ∀ b : Block ι, String.join (blockPieces b) = blockText b
  | [] => by rw [blockPieces, blockText, String.join_nil]
  | s :: ss => by
    rw [blockPieces, blockText, String.join_append, s.join_pieces, join_blockPieces ss]

end

end

/-! ## Leading lexemes -/

/-- The content of the token that makes an expression what it is: of a leaf its own text, else of
the operator or opening bracket. -/
def Expr.literal : Expr ι → String
  | .ident name => name
  | .int value => decimal value
  | .bool value => truthText value
  | .str value => value
  | .nil => Keyword.nil.text
  | .list _ => Mark.leftBracket.text
  | .prefixOp op _ => op.text
  | .infixOp op _ _ => op.text
  | .index _ _ => Mark.leftBracket.text
  | .cond _ _ _ => Keyword.if_.text
  | .func _ _ _ => Keyword.func.text
  | .call _ _ => Mark.leftParen.text

def Stmt.literal : Stmt ι → String
  | .var _ _ => Keyword.var.text
  | .ret _ => Keyword.return_.text
  | .expr value => value.literal

def Program.literal (program : Program) : String :=
  match program with
  | [] => ""
  | s :: _ => s.literal

end Scriptlet
