import Scriptlet.Grammar.Parser

/-!
# What can be said about a reader

`Parse.wp p c Q E` says how reading with `p` at the cursor `c` can end: with a value of which `Q`
holds, or with an error of which `E` holds. It says nothing if the fuel runs out. There is one rule
for each way in which readers are put together, so a reader is never run by hand: the rules are
applied to its text, and what is left are facts about tokens.
-/

namespace Scriptlet

namespace Cursor

def next (stop : Located Token) (c : Cursor) : Located Token :=
  c.rest.headD stop

def advance (stop : Located Token) (c : Cursor) : Cursor :=
  ⟨c.next stop, c.rest.tail, c.errors⟩

/-- What recovery leaves of the row if a statement failed at the cursor. -/
def recovered (inBlock : Bool) (c : Cursor) : List (Located Token) :=
  let rest := Parse.skipStatement 0 (c.last :: c.rest)
  if inBlock then rest else Parse.dropStrayBrace rest

variable {stop t : Located Token} {c : Cursor} {ts : List (Located Token)}

theorem next_of_cons (h : c.rest = t :: ts) : c.next stop = t := by
  simp [next, h]

theorem next_of_nil (h : c.rest = []) : c.next stop = stop := by
  simp [next, h]

theorem advance_of_cons (h : c.rest = t :: ts) : c.advance stop = ⟨t, ts, c.errors⟩ := by
  simp [advance, next, h]

theorem advance_of_nil (h : c.rest = []) : c.advance stop = ⟨stop, [], c.errors⟩ := by
  simp [advance, next, h]

@[simp] theorem advance_last : (c.advance stop).last = c.next stop := rfl

@[simp] theorem advance_rest : (c.advance stop).rest = c.rest.tail := rfl

@[simp] theorem advance_errors : (c.advance stop).errors = c.errors := rfl

end Cursor

namespace Parse

variable {α β : Type}

/-- The weakest condition on a cursor under which a reader ends in `Q`, or fails in `E`. -/
def wp (p : Parse α) (c : Cursor) (Q : α → Cursor → Prop) (E : ParseError → Cursor → Prop) :
    Prop :=
  match p c with
  | none => True
  | some (.ok a, c) => Q a c
  | some (.error e, c) => E e c

section

variable {p : Parse α} {c : Cursor} {Q Q' : α → Cursor → Prop} {E E' : ParseError → Cursor → Prop}

theorem wp_mono (h : p.wp c Q E) (hQ : ∀ a c, Q a c → Q' a c) (hE : ∀ e c, E e c → E' e c) :
    p.wp c Q' E' := by
  unfold wp at h ⊢
  split
  · trivial
  · simp_all
  · simp_all

theorem wp_and (h : p.wp c Q E) (h' : p.wp c Q' E') :
    p.wp c (fun a c => Q a c ∧ Q' a c) (fun e c => E e c ∧ E' e c) := by
  unfold wp at h h' ⊢
  split <;> simp_all

end

/-! ## One rule for each way to read -/

section

variable {c : Cursor} {Q : α → Cursor → Prop} {E : ParseError → Cursor → Prop}

@[simp] theorem wp_exhausted : (exhausted : Parse α).wp c Q E := trivial

@[simp] theorem wp_pure (a : α) : (pure a : Parse α).wp c Q E ↔ Q a c := Iff.rfl

@[simp] theorem wp_fail (e : ParseError) : (fail e : Parse α).wp c Q E ↔ E e c := Iff.rfl

@[simp] theorem wp_bind (p : Parse β) (next : β → Parse α) :
    (p >>= next).wp c Q E ↔ p.wp c (fun b c => (next b).wp c Q E) E := by
  change (andThen p next).wp c Q E ↔ _
  unfold wp andThen
  rcases p c with _ | ⟨_ | b, c'⟩ <;> rfl

/-- What was a failure is a value: the cursor is where the reader stopped. -/
@[simp] theorem wp_attempt (p : Parse β) {Q : Except ParseError β → Cursor → Prop} :
    (attempt p).wp c Q E ↔ p.wp c (fun b c => Q (.ok b) c) (fun e c => Q (.error e) c) := by
  unfold wp attempt
  rcases p c with _ | ⟨_ | b, c'⟩ <;> rfl

end

section

variable {stop : Located Token} {c : Cursor} {E : ParseError → Cursor → Prop}

@[simp] theorem wp_peek {Q : Located Token → Cursor → Prop} :
    (peek stop).wp c Q E ↔ Q (c.next stop) c := Iff.rfl

@[simp] theorem wp_read {Q : Located Token → Cursor → Prop} :
    (read stop).wp c Q E ↔ Q (c.next stop) (c.advance stop) := Iff.rfl

@[simp] theorem wp_skip {Q : Unit → Cursor → Prop} :
    (skip stop).wp c Q E ↔ Q () (c.advance stop) := Iff.rfl

@[simp] theorem wp_expect {m : Mark} {Q : Unit → Cursor → Prop} :
    (expect stop m).wp c Q E ↔
      if (c.next stop).value = .mark m then Q () (c.advance stop)
      else E (.expected (.mark m) (c.next stop)) c := by
  unfold expect
  simp only [wp_bind, wp_peek]
  split <;> simp

@[simp] theorem wp_expectIdentifier {Q : String → Cursor → Prop} :
    (expectIdentifier stop).wp c Q E ↔
      match (c.next stop).value with
      | .identifier name => Q name (c.advance stop)
      | _ => E (.expected .identifier (c.next stop)) c := by
  unfold expectIdentifier
  simp only [wp_bind, wp_peek]
  split <;> simp_all

@[simp] theorem wp_skipSemicolon {Q : Unit → Cursor → Prop} :
    (skipSemicolon stop).wp c Q E ↔
      if (c.next stop).value = .mark .semicolon then Q () (c.advance stop)
      else Q () c := by
  unfold skipSemicolon
  simp only [wp_bind, wp_peek]
  split <;> simp

@[simp] theorem wp_recover {inBlock : Bool} {e : ParseError} {Q : Unit → Cursor → Prop} :
    (recover inBlock e).wp c Q E ↔
      Q () ⟨c.last, c.recovered inBlock, e :: c.errors⟩ := Iff.rfl

end

end Parse

end Scriptlet
