import Scriptlet.Grammar.Error

/-!
# Reading from a row of tokens

A reader takes tokens off the front of a row. It may fail, and then says why and leaves the cursor
where it stopped; errors of statements inside it that were skipped already stay recorded. Readers
that call each other are bounded by fuel, and `none` says only that the fuel ran out.

After a failure `Parse.recover` skips the rest of the malformed statement. It starts at the token
that was read last, so that a brace among the tokens already taken is seen again.
-/

namespace Scriptlet

/-- A place in a row of tokens: the token read last and those still to be read, with the errors
recorded so far, newest first. The end is no member of the row. -/
structure Cursor where
  last : Located Token
  rest : List (Located Token)
  errors : List ParseError
  deriving DecidableEq, Repr

def Parse (α : Type) : Type :=
  Cursor → Option (Except ParseError α × Cursor)

namespace Parse

variable {α β : Type}

def done (a : α) : Parse α := fun c => some (.ok a, c)

def andThen (p : Parse α) (next : α → Parse β) : Parse β := fun c =>
  match p c with
  | none => none
  | some (.ok a, c) => next a c
  | some (.error e, c) => some (.error e, c)

instance : Monad Parse where
  pure := done
  bind := andThen

def exhausted : Parse α := fun _ => none

def fail (e : ParseError) : Parse α := fun c => some (.error e, c)

def attempt (p : Parse α) : Parse (Except ParseError α) := fun c =>
  (p c).map fun (result, c) => (.ok result, c)

/-- The next token, or the end `stop`, without reading it. -/
def peek (stop : Located Token) : Parse (Located Token) := fun c =>
  some (.ok (c.rest.headD stop), c)

/-- Reads the next token. At the end that is `stop`, however often it is read. -/
def read (stop : Located Token) : Parse (Located Token) := fun c =>
  let t := c.rest.headD stop
  some (.ok t, { c with last := t, rest := c.rest.tail })

def skip (stop : Located Token) : Parse Unit := do
  let _ ← read stop

def expect (stop : Located Token) (m : Mark) : Parse Unit := do
  let t ← peek stop
  if t.value = .mark m then skip stop else fail (.expected (.mark m) t)

def expectIdentifier (stop : Located Token) : Parse String := do
  let t ← peek stop
  match t.value with
  | .identifier name =>
    skip stop
    return name
  | _ => fail (.expected .identifier t)

def skipSemicolon (stop : Located Token) : Parse Unit := do
  let t ← peek stop
  if t.value = .mark .semicolon then skip stop else return ()

/-- What is left after a malformed statement: the tokens behind its semicolon, or those from the
brace on that closes the block around it. Braces opened on the way are stepped over with all that
they hold; `depth` counts them. -/
def skipStatement (depth : Nat) : List (Located Token) → List (Located Token)
  | [] => []
  | t :: rest =>
    match t.value with
    | .mark .semicolon => if depth = 0 then rest else skipStatement depth rest
    | .mark .rightBrace => if depth = 0 then t :: rest else skipStatement (depth - 1) rest
    | .mark .leftBrace => skipStatement (depth + 1) rest
    | _ => skipStatement depth rest

def dropStrayBrace : List (Located Token) → List (Located Token)
  | [] => []
  | t :: rest => if t.value = .mark .rightBrace then rest else t :: rest

/-- Records an error and skips what is left of the malformed statement. Outside of any block a
closing brace is part of it. -/
def recover (inBlock : Bool) (e : ParseError) : Parse Unit := fun c =>
  let rest := skipStatement 0 (c.last :: c.rest)
  some (.ok (), { c with
    rest := if inBlock then rest else dropStrayBrace rest
    errors := e :: c.errors })

theorem length_skipStatement_le (depth : Nat) (tokens : List (Located Token)) :
    (skipStatement depth tokens).length ≤ tokens.length := by
  fun_induction skipStatement depth tokens <;> simp_all <;> omega

end Parse

end Scriptlet
