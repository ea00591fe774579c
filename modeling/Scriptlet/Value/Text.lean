import Scriptlet.Tree.Printer
import Scriptlet.Value

/-!
# Values as text

A value has two texts. Its display is what a program prints; its code is how a programmer would
write it, with strings in quotes. Elements of a list are always shown as code. Strings are not
escaped in either.

A list that contains itself has no text: writing it out would never come to an end. `Value.isFinite`
says whether a value has one, and then `Value.code` and `Value.display` are all of it. On a way down
into a value that does not come to a list twice there are no more lists than `lists.size`, and one
more that has no elements because it does not exist. So that depth is enough to find out.
-/

namespace Scriptlet

def Closure.text (f : Closure) : String :=
  (Expr.func f.label f.params f.body).text

def Closure.pieces (f : Closure) : List String :=
  ["func(", commaSeparated f.params, ") ", "\x7b"] ++ blockPieces f.body ++ ["\x7d"]

namespace Value

def codeWith (elementTexts : ListId → List String) : Value → String
  | int n => decimal n
  | bool b => truthText b
  | str s => "\"" ++ s ++ "\""
  | nil => Keyword.nil.text
  | list a => "[" ++ commaSeparated (elementTexts a) ++ "]"
  | func f => f.text
  | builtin name => "builtin function " ++ name
  | returned v => v.codeWith elementTexts

/-- Whether a value's text has an end, given which lists' texts do. -/
def finiteWith (finite : ListId → Bool) : Value → Bool
  | list a => finite a
  | returned v => v.finiteWith finite
  | _ => true

end Value

namespace Lists

def elementTexts (lists : Lists) : Nat → ListId → List String
  | 0, _ => []
  | depth + 1, a => (lists.elements a).map (Value.codeWith (lists.elementTexts depth))

/-- Whether nothing of a list's elements is left out down to a depth. -/
def finite (lists : Lists) : Nat → ListId → Bool
  | 0, a => (lists.elements a).isEmpty
  | depth + 1, a => (lists.elements a).all (Value.finiteWith (lists.finite depth))

end Lists

namespace Value

def isFinite (lists : Lists) (v : Value) : Bool :=
  v.finiteWith (lists.finite lists.size)

/-- A value as a programmer would write it. -/
def code (lists : Lists) (v : Value) : String :=
  v.codeWith (lists.elementTexts lists.size)

/-- A value as a program prints it. -/
def display (lists : Lists) : Value → String
  | str s => s
  | returned v => v.display lists
  | v => v.code lists

/-- The parts in which a value is written. What a list has between its brackets is one part. -/
def pieces (lists : Lists) : Value → List String
  | int n => decimalPieces n
  | list a => ["[", commaSeparated (lists.elementTexts lists.size a), "]"]
  | func f => f.pieces
  | builtin name => ["builtin function ", name]
  | returned v => v.pieces lists
  | v => [v.display lists]

end Value

theorem Closure.join_pieces (f : Closure) : String.join f.pieces = f.text := by
  simp [Closure.pieces, Closure.text, Expr.text, String.join_cons, String.join_append,
    join_blockPieces, ← String.toList_inj]

theorem Value.join_pieces (lists : Lists) (v : Value) :
    String.join (v.pieces lists) = v.display lists := by
  induction v with
  | returned v ih => exact ih
  | int n => exact join_decimalPieces n
  | func f => exact f.join_pieces
  | list a =>
    simp only [Value.pieces, String.join_cons, String.join_nil, String.append_empty]
    exact (String.append_assoc ..).symm
  | builtin name =>
    simp only [Value.pieces, String.join_cons, String.join_nil, String.append_empty]
    rfl
  | _ => simp only [Value.pieces, String.join_cons, String.join_nil, String.append_empty]

end Scriptlet
