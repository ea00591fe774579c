/-!
# Literals as text

Integers are 64 bits wide. A literal has no sign, so it may say at most `2 ^ 63 - 1`; leading zeros
do not count.

Six characters of a string are written as a backslash and a letter when a program is printed;
reading knows these and the escaped apostrophe, because a literal may stand between either kind of
quote. `unescape?_of_escapeLetter?` says that reading an escape gives back the character that was
written.
-/

namespace Scriptlet.Text

/-! ## Integers -/

def decimalValue (digits : List Char) : Nat :=
  Nat.ofDigitChars 10 digits 0

def literalBound : Nat := 9223372036854775808

def integerLiteral? (digits : String) : Option Int64 :=
  let n := decimalValue digits.toList
  if n < literalBound then some (Int64.ofNat n) else none

theorem integerLiteral?_eq_none_iff {digits : String} :
    integerLiteral? digits = none ↔ literalBound ≤ decimalValue digits.toList := by
  simp [integerLiteral?]

theorem toInt_of_integerLiteral? {digits : String} {n : Int64}
    (h : integerLiteral? digits = some n) : n.toInt = decimalValue digits.toList := by
  simp only [integerLiteral?] at h
  split at h
  · cases h
    exact Int64.toInt_ofNat_of_lt ‹_›
  · cases h

/-! ## Strings -/

/-- The character that a backslash followed by `c` stands for, if the pair is an escape. -/
def unescape? (c : Char) : Option Char :=
  match c with
  | '\'' => some '\''
  | '"' => some '"'
  | '\\' => some '\\'
  | 'n' => some '\n'
  | 'r' => some '\r'
  | 't' => some '\t'
  | '0' => some '\x00'
  | _ => none

/-- The letter that follows the backslash where `c` has to be written as an escape. -/
def escapeLetter? (c : Char) : Option Char :=
  match c with
  | '"' => some '"'
  | '\\' => some '\\'
  | '\n' => some 'n'
  | '\r' => some 'r'
  | '\t' => some 't'
  | '\x00' => some '0'
  | _ => none

def escapeChar (c : Char) : List Char :=
  match escapeLetter? c with
  | some letter => ['\\', letter]
  | none => [c]

def escape (text : List Char) : List Char :=
  text.flatMap escapeChar

def quoted (text : String) : String :=
  "\"" ++ String.ofList (escape text.toList) ++ "\""

theorem unescape?_of_escapeLetter? {c letter : Char} (h : escapeLetter? c = some letter) :
    unescape? letter = some c := by
  unfold escapeLetter? at h
  split at h <;> simp_all <;> subst h <;> rfl

@[simp] theorem escape_nil : escape [] = [] := rfl

@[simp] theorem escape_cons (c : Char) (text : List Char) :
    escape (c :: text) = escapeChar c ++ escape text := rfl

end Scriptlet.Text
