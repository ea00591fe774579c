/-!
# Places in a text

A place is counted in bytes of the text's UTF-8 form. A span runs from its first byte up to, but
not including, its stop.
-/

namespace Scriptlet

/-- The number of bytes that the characters take in UTF-8. -/
def byteLength (text : List Char) : Nat :=
  text.foldr (fun c size => c.utf8Size + size) 0

@[simp] theorem byteLength_nil : byteLength [] = 0 := rfl

@[simp] theorem byteLength_cons (c : Char) (text : List Char) :
    byteLength (c :: text) = c.utf8Size + byteLength text := rfl

@[simp] theorem byteLength_append (a b : List Char) :
    byteLength (a ++ b) = byteLength a + byteLength b := by
  induction a with
  | nil => simp
  | cons c a ih => simp [ih, Nat.add_assoc]

structure Span where
  start : Nat
  stop : Nat
  deriving DecidableEq, Repr

namespace Span

def ofText (start : Nat) (text : List Char) : Span :=
  ⟨start, start + byteLength text⟩

def point (place : Nat) : Span :=
  ⟨place, place⟩

def text (s : Span) : String :=
  toString s.start ++ ":" ++ toString s.stop

def mention (s : Span) : String :=
  "(at " ++ s.text ++ ")"

def shift (offset : Nat) (s : Span) : Span :=
  ⟨offset + s.start, offset + s.stop⟩

end Span

structure Located (α : Type) where
  value : α
  span : Span
  deriving DecidableEq, Repr

/-- The form in which messages name something read, given how the thing itself is written. -/
def Located.mention {α : Type} (write : α → String) (x : Located α) : String :=
  write x.value ++ " " ++ x.span.mention

end Scriptlet
