import Scriptlet.Span

/-!
# Tokens

The words of the language: punctuation marks, keywords, names and literals, and two special
tokens, one for text that means nothing and one for the end. A token has two written forms.
`Token.text` is used in messages; `Token.lexeme` is the content, without quotes.
-/

namespace Scriptlet

inductive Mark where
  | assign | plus | minus | star | slash | percent
  | equalEqual | bangEqual | lessThan | greaterThan | lessEqual | greaterEqual
  | comma | semicolon
  | leftParen | rightParen | leftBrace | rightBrace | leftBracket | rightBracket
  deriving DecidableEq, Repr

namespace Mark

def text : Mark → String
  | assign => "="
  | plus => "+"
  | minus => "-"
  | star => "*"
  | slash => "/"
  | percent => "%"
  | equalEqual => "=="
  | bangEqual => "!="
  | lessThan => "<"
  | greaterThan => ">"
  | lessEqual => "<="
  | greaterEqual => ">="
  | comma => ","
  | semicolon => ";"
  | leftParen => "("
  | rightParen => ")"
  | leftBrace => "\x7b"
  | rightBrace => "\x7d"
  | leftBracket => "["
  | rightBracket => "]"

end Mark

inductive Keyword where
  | true_ | false_ | nil | var | func | return_ | if_ | else_ | and | or | not
  deriving DecidableEq, Repr

namespace Keyword

def text : Keyword → String
  | true_ => "true"
  | false_ => "false"
  | nil => "nil"
  | var => "var"
  | func => "func"
  | return_ => "return"
  | if_ => "if"
  | else_ => "else"
  | and => "and"
  | or => "or"
  | not => "not"

def all : List Keyword :=
  [true_, false_, nil, var, func, return_, if_, else_, and, or, not]

/-- The keyword with these letters. Case matters. -/
def ofText? (word : String) : Option Keyword :=
  all.find? fun k => k.text == word

end Keyword

/-- A token. An integer keeps its digits as written, a string the text that it stands for. -/
inductive Token where
  | mark (mark : Mark)
  | keyword (keyword : Keyword)
  | identifier (name : String)
  | integer (digits : String)
  | string (value : String)
  /-- Text that is no token, such as an unknown character or a string without its end. -/
  | illegal (text : String)
  /-- The end of the text. -/
  | eof
  deriving DecidableEq, Repr

namespace Token

def text : Token → String
  | mark m => m.text
  | keyword k => k.text
  | identifier name => name
  | integer digits => digits
  | string value => "\"" ++ value ++ "\""
  | illegal text => text
  | eof => "EOF"

def lexeme : Token → String
  | string value => value
  | eof => ""
  | token => token.text

/-- Whether two tokens are of one kind, whatever names, digits or text they carry. -/
def sameKind : Token → Token → Bool
  | mark a, mark b => a == b
  | keyword a, keyword b => a == b
  | identifier _, identifier _ => true
  | integer _, integer _ => true
  | string _, string _ => true
  | illegal _, illegal _ => true
  | eof, eof => true
  | _, _ => false

end Token

def Located.mentionToken (t : Located Token) : String :=
  t.mention Token.text

end Scriptlet
