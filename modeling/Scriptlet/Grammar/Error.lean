import Scriptlet.Token

/-!
# Why a statement is malformed

Each error names the token that it is about. An expectation that fails names the token found in
the place of the expected one; the other errors name a token that cannot begin an operand.
-/

namespace Scriptlet

inductive Expectation where
  | mark (mark : Mark)
  | identifier
  deriving DecidableEq, Repr

def Expectation.text : Expectation → String
  | mark m => m.text
  | identifier => "identifier"

inductive ParseError where
  /-- Something else stands where the grammar leaves no choice. -/
  | expected (what : Expectation) (found : Located Token)
  /-- No expression starts with this token. -/
  | noOperand (found : Located Token)
  /-- The token is none of the language. -/
  | illegal (found : Located Token)
  /-- The literal does not fit in 64 bits. -/
  | integerRange (found : Located Token)
  deriving DecidableEq, Repr

namespace ParseError

def found : ParseError → Located Token
  | expected _ t => t
  | noOperand t => t
  | illegal t => t
  | integerRange t => t

def message : ParseError → String
  | expected what t =>
    "expected next token to be \x60" ++ what.text ++ "\x60, but got " ++ t.mentionToken ++
      " instead"
  | noOperand t => "no prefix parse function for " ++ t.mentionToken
  | illegal t => "illegal token " ++ t.mentionToken
  | integerRange t => "could not parse " ++ t.mentionToken ++ " as integer"

end ParseError

end Scriptlet
