import Scriptlet.Token
import Scriptlet.Text.Characters
import Scriptlet.Text.Literals

/-!
# Reading tokens

`scan` cuts one token off a text that starts with no white space: always the longest one. The
characters that it took are kept, so that `scan_text_append_rest` can say that nothing is lost;
spans are then lengths of what was taken. Every text has tokens: what means nothing becomes an
illegal token.
-/

namespace Scriptlet

open Text

/-- A token cut off a text: the characters it was read from and the text behind them. -/
structure Piece where
  token : Token
  text : List Char
  rest : List Char

def isNameStart (c : Char) : Bool :=
  isAlphabetic c || c == '_'

/-- Whether a name can go on with the character. Digits are the ASCII ones. -/
def isNameChar (c : Char) : Bool :=
  isNameStart c || c.isDigit

/-- The mark that a text starts with, and the text behind it. A mark of two characters wins over
the mark of its first character. -/
def Mark.read? (c : Char) (rest : List Char) : Option (Mark × List Char) :=
  match c, rest with
  | '=', '=' :: rest => some (.equalEqual, rest)
  | '=', rest => some (.assign, rest)
  | '!', '=' :: rest => some (.bangEqual, rest)
  | '<', '=' :: rest => some (.lessEqual, rest)
  | '<', rest => some (.lessThan, rest)
  | '>', '=' :: rest => some (.greaterEqual, rest)
  | '>', rest => some (.greaterThan, rest)
  | '+', rest => some (.plus, rest)
  | '-', rest => some (.minus, rest)
  | '*', rest => some (.star, rest)
  | '/', rest => some (.slash, rest)
  | '%', rest => some (.percent, rest)
  | ',', rest => some (.comma, rest)
  | ';', rest => some (.semicolon, rest)
  | '(', rest => some (.leftParen, rest)
  | ')', rest => some (.rightParen, rest)
  | '\x7b', rest => some (.leftBrace, rest)
  | '\x7d', rest => some (.rightBrace, rest)
  | '[', rest => some (.leftBracket, rest)
  | ']', rest => some (.rightBracket, rest)
  | _, _ => none

theorem Mark.read?_eq_some {c : Char} {rest rest' : List Char} {m : Mark}
    (h : Mark.read? c rest = some (m, rest')) : m.text.toList ++ rest' = c :: rest := by
  unfold Mark.read? at h
  split at h <;> simp_all [Mark.text] <;> (obtain ⟨rfl, rfl⟩ := h; rfl)

/-- Reads a string literal behind its opening quote. `taken` holds the characters read so far
and `value` those they stand for, both last one first. A string without an end is illegal and
holds all of the text; an unknown escape is illegal too and ends just behind itself. -/
def scanString (quote : Char) (taken value : List Char) : List Char → Piece
  | [] => ⟨.illegal (String.ofList (quote :: value.reverse)), taken.reverse, []⟩
  | c :: rest =>
    if c = quote then
      ⟨.string (String.ofList value.reverse), (c :: taken).reverse, rest⟩
    else if c = '\\' then
      match rest with
      | [] => ⟨.illegal (String.ofList (quote :: value.reverse)), (c :: taken).reverse, []⟩
      | e :: rest =>
        match unescape? e with
        | some d => scanString quote (e :: c :: taken) (d :: value) rest
        | none => ⟨.illegal (String.ofList [c, e]), (e :: c :: taken).reverse, rest⟩
    else scanString quote (c :: taken) (c :: value) rest

theorem scanString_text_append_rest (quote : Char) (taken value text : List Char) :
    (scanString quote taken value text).text ++ (scanString quote taken value text).rest =
      taken.reverse ++ text := by
  fun_induction scanString quote taken value text <;> simp_all

def Token.ofWord (word : String) : Token :=
  match Keyword.ofText? word with
  | some k => .keyword k
  | none => .identifier word

/-- Cuts the first token off a text that starts with `c`, which is not white space. -/
def scan (c : Char) (rest : List Char) : Piece :=
  match Mark.read? c rest with
  | some (m, rest) => ⟨.mark m, m.text.toList, rest⟩
  | none =>
    if c = '"' ∨ c = '\'' then scanString c [c] [] rest
    else if c.isDigit then
      let digits := c :: rest.takeWhile Char.isDigit
      ⟨.integer (String.ofList digits), digits, rest.dropWhile Char.isDigit⟩
    else if isNameStart c then
      let word := c :: rest.takeWhile isNameChar
      ⟨Token.ofWord (String.ofList word), word, rest.dropWhile isNameChar⟩
    else ⟨.illegal (String.singleton c), [c], rest⟩

/-- A token's characters followed by the rest are the text it was cut off. -/
theorem scan_text_append_rest (c : Char) (rest : List Char) :
    (scan c rest).text ++ (scan c rest).rest = c :: rest := by
  unfold scan
  split
  · exact Mark.read?_eq_some ‹_›
  · split
    · simp [scanString_text_append_rest]
    · split
      · simp
      · split <;> simp

theorem scanString_text_ne_nil (quote : Char) {taken : List Char} (value text : List Char)
    (h : taken ≠ []) : (scanString quote taken value text).text ≠ [] := by
  fun_induction scanString quote taken value text <;> simp_all

/-- A token takes at least one character. -/
theorem scan_text_ne_nil (c : Char) (rest : List Char) : (scan c rest).text ≠ [] := by
  unfold scan
  split
  · rename_i m _ _
    cases m <;> simp [Mark.text]
  · split
    · exact scanString_text_ne_nil _ _ _ (by simp)
    · split
      · simp
      · split <;> simp

theorem length_scan_rest_le (c : Char) (rest : List Char) :
    (scan c rest).rest.length ≤ rest.length := by
  have hall := congrArg List.length (scan_text_append_rest c rest)
  have hpos := List.length_pos_iff.2 (scan_text_ne_nil c rest)
  simp only [List.length_append, List.length_cons] at hall
  omega

def tokensFrom (place : Nat) (text : List Char) : List (Located Token) :=
  match _h : text.dropWhile isBlank with
  | [] => []
  | c :: rest =>
    let start := place + byteLength (text.takeWhile isBlank)
    let piece := scan c rest
    let span := Span.ofText start piece.text
    ⟨piece.token, span⟩ :: tokensFrom span.stop piece.rest
termination_by text.length
decreasing_by
  have hall := congrArg List.length (List.takeWhile_append_dropWhile (p := isBlank) (l := text))
  have hrest := length_scan_rest_le c rest
  simp only [_h, List.length_append, List.length_cons] at hall
  omega

/-- What the parser reads: the tokens of a text and the place of its end. -/
structure Stream where
  tokens : List (Located Token)
  stop : Nat
  deriving DecidableEq, Repr

namespace Stream

def ofText (text : String) : Stream :=
  ⟨tokensFrom 0 text.toList, byteLength text.toList⟩

def eof (s : Stream) : Located Token :=
  ⟨.eof, Span.point s.stop⟩

end Stream

end Scriptlet
