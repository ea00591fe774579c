import Scriptlet.Proofs.Progress

/-!
# Where tokens stand

A reader looks at the tokens and not at their spans. If all spans of a row are changed in one way,
what is read stays the same, and the errors name the same tokens with their spans changed in that
way. How much fuel there is does not matter, as long as it is enough.
-/

namespace Scriptlet

def Located.move {α : Type} (f : Span → Span) (x : Located α) : Located α :=
  ⟨x.value, f x.span⟩

def ParseError.move (f : Span → Span) : ParseError → ParseError
  | expected what t => .expected what (t.move f)
  | noOperand t => .noOperand (t.move f)
  | illegal t => .illegal (t.move f)
  | integerRange t => .integerRange (t.move f)

theorem Located.move_id {α : Type} : (Located.move id : Located α → Located α) = id :=
  rfl

theorem ParseError.move_id : ParseError.move id = id := by
  funext e
  cases e <;> rfl

def Cursor.move (f : Span → Span) (c : Cursor) : Cursor :=
  ⟨c.last.move f, c.rest.map (Located.move f), c.errors.map (ParseError.move f)⟩

namespace Parse

variable {α β γ δ : Type} {f : Span → Span}

/-- The result on a row with other spans. What is not an error changes as `g` says. -/
def moved (f : Span → Span) (g : α → β) : Except ParseError α → Except ParseError β
  | .ok a => .ok (g a)
  | .error e => .error (e.move f)

/-- On a row with other spans a reader ends as another one does on the row itself, if both have fuel
enough. -/
def Moves (f : Span → Span) (g : α → β) (p : Parse α) (p' : Parse β) : Prop :=
  ∀ c r r', p c = some r → p' (c.move f) = some r' → r' = (moved f g r.1, r.2.move f)

/-- A reader ends as it does. -/
theorem wp_self (p : Parse α) (c : Cursor) :
    p.wp c (fun a c' => p c = some (.ok a, c')) (fun e c' => p c = some (.error e, c')) := by
  unfold Parse.wp
  split <;> trivial

/-- If the reader on the row itself ends well, then so does the other one, if it ends. -/
theorem Moves.wp {g : α → β} {p : Parse α} {p' : Parse β} (h : Moves f g p p') {c c₁ : Cursor}
    {a : α} (hr : p c = some (.ok a, c₁)) :
    p'.wp (c.move f) (fun b c' => b = g a ∧ c' = c₁.move f) (fun _ _ => False) := by
  unfold Parse.wp
  split
  next => trivial
  next hr' =>
    cases h _ _ _ hr hr'
    exact ⟨rfl, rfl⟩
  next hr' => cases h _ _ _ hr hr'

/-! ## One rule for each way to read -/

section

variable {g : α → β} {h : γ → δ}

theorem moves_exhausted_left {p' : Parse β} : Moves f g exhausted p' := by
  intro c r r' hp
  cases hp

theorem moves_exhausted_right {p : Parse α} : Moves f g p exhausted := by
  intro c r r' _ hp'
  cases hp'

theorem moves_pure (a : α) : Moves f g (pure a) (pure (g a)) := by
  intro c r r' hp hp'
  cases hp
  cases hp'
  rfl

theorem moves_fail (e : ParseError) : Moves f g (fail e) (fail (e.move f)) := by
  intro c r r' hp hp'
  cases hp
  cases hp'
  rfl

theorem Moves.bind {p : Parse α} {p' : Parse β} {next : α → Parse γ} {next' : β → Parse δ}
    (hp : Moves f g p p') (hnext : ∀ a, Moves f h (next a) (next' (g a))) :
    Moves f h (p >>= next) (p' >>= next') := by
  intro c r r' hr hr'
  change andThen p next c = _ at hr
  change andThen p' next' (c.move f) = _ at hr'
  unfold andThen at hr hr'
  cases hpc : p c with
  | none => simp [hpc] at hr
  | some s =>
    cases hpc' : p' (c.move f) with
    | none => simp [hpc'] at hr'
    | some s' =>
      obtain rfl := hp c s s' hpc hpc'
      rw [hpc] at hr
      rw [hpc'] at hr'
      obtain ⟨x, c₁⟩ := s
      cases x with
      | ok a => exact hnext a c₁ r r' hr hr'
      | error e =>
        cases hr
        cases hr'
        rfl

theorem Moves.attempt {p : Parse α} {p' : Parse β} (hp : Moves f g p p') :
    Moves f (moved f g) (attempt p) (attempt p') := by
  intro c r r' hr hr'
  obtain ⟨s, hs, rfl⟩ := Option.map_eq_some_iff.1 hr
  obtain ⟨s', hs', rfl⟩ := Option.map_eq_some_iff.1 hr'
  obtain rfl := hp c s s' hs hs'
  rfl

theorem Moves.ite {P : Prop} [Decidable P] {p q : Parse α} {p' q' : Parse β}
    (hp : Moves f g p p') (hq : Moves f g q q') :
    Moves f g (if P then p else q) (if P then p' else q') := by
  split
  · exact hp
  · exact hq

end

section

variable {stop : Located Token}

theorem next_move (c : Cursor) : (c.move f).next (stop.move f) = (c.next stop).move f := by
  rw [Cursor.next, Cursor.next, Cursor.move]
  cases c.rest <;> rfl

theorem moves_peek : Moves f (Located.move f) (peek stop) (peek (stop.move f)) := by
  intro c r r' hp hp'
  cases hp
  cases hp'
  exact congrArg (fun t => (Except.ok t, c.move f)) (next_move c)

theorem moves_read : Moves f (Located.move f) (read stop) (read (stop.move f)) := by
  intro c r r' hp hp'
  cases hp
  cases hp'
  have hrest : (c.move f).rest.tail = c.rest.tail.map (Located.move f) := by
    simp only [Cursor.move, List.map_tail]
  have hnext : (c.move f).next (stop.move f) = (c.next stop).move f := next_move c
  rw [Cursor.next, Cursor.next] at hnext
  simp only [moved, hnext, hrest]
  rfl

theorem moves_skip : Moves f id (skip stop) (skip (stop.move f)) :=
  moves_read.bind fun _ => moves_pure ()

theorem moves_expect (m : Mark) : Moves f id (expect stop m) (expect (stop.move f) m) :=
  moves_peek.bind fun t => moves_skip.ite (moves_fail (.expected (.mark m) t))

theorem moves_expectIdentifier :
    Moves f id (expectIdentifier stop) (expectIdentifier (stop.move f)) := by
  refine moves_peek.bind fun t => ?_
  dsimp only [Located.move]
  split
  next name _ => exact moves_skip.bind fun _ => moves_pure name
  next => exact moves_fail (.expected .identifier t)

theorem moves_skipSemicolon : Moves f id (skipSemicolon stop) (skipSemicolon (stop.move f)) :=
  moves_peek.bind fun _ => moves_skip.ite (moves_pure ())

theorem skipStatement_move (depth : Nat) (row : List (Located Token)) :
    skipStatement depth (row.map (Located.move f)) =
      (skipStatement depth row).map (Located.move f) := by
  induction row generalizing depth with
  | nil => rfl
  | cons t row ih =>
    rw [List.map_cons, skipStatement.eq_def, skipStatement.eq_def depth (t :: row)]
    dsimp only [Located.move]
    split
    · split
      · rfl
      · exact ih _
    · split
      · rfl
      · exact ih _
    · exact ih _
    · exact ih _

theorem dropStrayBrace_move (row : List (Located Token)) :
    dropStrayBrace (row.map (Located.move f)) = (dropStrayBrace row).map (Located.move f) := by
  cases row with
  | nil => rfl
  | cons t row =>
    rw [List.map_cons, dropStrayBrace, dropStrayBrace, apply_ite (List.map (Located.move f))]
    rfl

theorem moves_recover (inBlock : Bool) (e : ParseError) :
    Moves f id (recover inBlock e) (recover inBlock (e.move f)) := by
  intro c r r' hp hp'
  cases hp
  cases hp'
  have hrow : (c.move f).last :: (c.move f).rest = (c.last :: c.rest).map (Located.move f) := rfl
  simp only [hrow, skipStatement_move, dropStrayBrace_move, ← apply_ite (List.map (Located.move f))]
  rfl

end

/-! ## The readers, one by one -/

section

variable {stop : Located Token}

theorem moves_moreParameters : ∀ n n',
    Moves f id (moreParameters stop n) (moreParameters (stop.move f) n')
  | 0, _ => moves_exhausted_left
  | _ + 1, 0 => moves_exhausted_right
  | n + 1, n' + 1 => moves_peek.bind fun _ =>
      (moves_skip.bind fun _ => moves_expectIdentifier.bind fun name =>
        (moves_moreParameters n n').bind fun names => moves_pure (name :: names)).ite
        ((moves_expect .rightParen).bind fun _ => moves_pure [])

theorem moves_parameters (n n' : Nat) :
    Moves f id (parameters stop n) (parameters (stop.move f) n') :=
  moves_peek.bind fun _ => (moves_skip.bind fun _ => moves_pure []).ite
    (moves_expectIdentifier.bind fun name =>
      (moves_moreParameters n n').bind fun names => moves_pure (name :: names))

mutual

theorem moves_statements (inBlock : Bool) : ∀ n n',
    Moves f id (statements stop inBlock n) (statements (stop.move f) inBlock n')
  | 0, _ => moves_exhausted_left
  | _ + 1, 0 => moves_exhausted_right
  | n + 1, n' + 1 => by
    have next := moves_statements inBlock n n'
    refine moves_peek.bind fun t => (moves_pure []).ite
      ((moves_skip.bind fun _ => next).ite ((moves_statement n n').attempt.bind fun r => ?_))
    cases r with
    | ok s => exact next.bind fun ss => moves_pure (s :: ss)
    | error e => exact (moves_recover inBlock e).bind fun _ => next
termination_by structural n => n

theorem moves_statement : ∀ n n',
    Moves f id (statement stop n) (statement (stop.move f) n')
  | 0, _ => moves_exhausted_left
  | _ + 1, 0 => moves_exhausted_right
  | n + 1, n' + 1 => by
    have expr := moves_expression 0 n n'
    have tail (s : Stmt Unit) : Moves f id (do skipSemicolon stop; return s)
        (do skipSemicolon (stop.move f); return s) :=
      moves_skipSemicolon.bind fun _ => moves_pure s
    refine moves_peek.bind fun t => ?_
    dsimp only [Located.move]
    split
    · exact moves_skip.bind fun _ => moves_expectIdentifier.bind fun name =>
        (moves_expect .assign).bind fun _ => expr.bind fun e => tail (.var name e)
    · exact moves_skip.bind fun _ => moves_peek.bind fun _ =>
        (tail (.ret .nil)).ite (expr.bind fun e => tail (.ret e))
    · exact expr.bind fun e => tail (.expr e)
termination_by structural n => n

theorem moves_block : ∀ n n', Moves f id (block stop n) (block (stop.move f) n')
  | 0, _ => moves_exhausted_left
  | _ + 1, 0 => moves_exhausted_right
  | n + 1, n' + 1 => (moves_statements true n n').bind fun body => moves_read.bind fun t =>
      (moves_pure body).ite (moves_fail (.expected (.mark .rightBrace) t))
termination_by structural n => n

theorem moves_expression (level : Nat) : ∀ n n',
    Moves f id (expression stop level n) (expression (stop.move f) level n')
  | 0, _ => moves_exhausted_left
  | _ + 1, 0 => moves_exhausted_right
  | n + 1, n' + 1 => moves_read.bind fun t => (moves_operand t n n').bind fun left =>
      moves_continuation level left n n'
termination_by structural n => n

theorem moves_operand (t : Located Token) : ∀ n n',
    Moves f id (operand stop t n) (operand (stop.move f) (t.move f) n')
  | 0, _ => moves_exhausted_left
  | _ + 1, 0 => moves_exhausted_right
  | n + 1, n' + 1 => by
    have expr (level : Nat) := moves_expression level n n'
    have blocks := moves_block n n'
    unfold operand
    dsimp only [Located.move]
    split
    · exact moves_pure _
    · split
      · exact moves_pure _
      · exact moves_fail (.integerRange t)
    · exact moves_pure _
    · exact moves_pure _
    · exact moves_pure _
    · exact moves_pure _
    · exact (expr _).bind fun e => moves_pure _
    · exact (expr _).bind fun e => moves_pure _
    · exact (expr 0).bind fun e => (moves_expect .rightParen).bind fun _ => moves_pure e
    · exact (moves_items .rightBracket n n').bind fun es => moves_pure _
    · refine (moves_expect .leftParen).bind fun _ => (expr 0).bind fun condition =>
        (moves_expect .rightParen).bind fun _ => (moves_expect .leftBrace).bind fun _ =>
        blocks.bind fun consequence => moves_peek.bind fun _ => Moves.ite ?_ (moves_pure _)
      exact moves_skip.bind fun _ => (moves_expect .leftBrace).bind fun _ =>
        blocks.bind fun alternative => moves_pure _
    · exact (moves_expect .leftParen).bind fun _ => (moves_parameters n n').bind fun params =>
        (moves_expect .leftBrace).bind fun _ => blocks.bind fun body => moves_pure _
    · exact moves_fail (.illegal t)
    · exact moves_fail (.noOperand t)
termination_by structural n => n

theorem moves_continuation (level : Nat) (left : Expr Unit) : ∀ n n',
    Moves f id (continuation stop level left n) (continuation (stop.move f) level left n')
  | 0, _ => moves_exhausted_left
  | _ + 1, 0 => moves_exhausted_right
  | n + 1, n' + 1 => by
    refine moves_peek.bind fun t => ?_
    dsimp only [Located.move]
    split
    · exact moves_skip.bind fun _ => (moves_items .rightParen n n').bind fun arguments =>
        moves_continuation level (.call left arguments) n n'
    · exact moves_skip.bind fun _ => (moves_expression 0 n n').bind fun position =>
        (moves_expect .rightBracket).bind fun _ =>
        moves_continuation level (.index left position) n n'
    · split
      next op _ =>
        exact Moves.ite (moves_skip.bind fun _ => (moves_expression op.level n n').bind fun right =>
          moves_continuation level (.infixOp op left right) n n') (moves_pure left)
      next => exact moves_pure left
termination_by structural n => n

theorem moves_items (close : Mark) : ∀ n n',
    Moves f id (items stop close n) (items (stop.move f) close n')
  | 0, _ => moves_exhausted_left
  | _ + 1, 0 => moves_exhausted_right
  | n + 1, n' + 1 => moves_peek.bind fun _ => (moves_skip.bind fun _ => moves_pure []).ite
      ((moves_expression 0 n n').bind fun e => (moves_moreItems close n n').bind fun es =>
        moves_pure (e :: es))
termination_by structural n => n

theorem moves_moreItems (close : Mark) : ∀ n n',
    Moves f id (moreItems stop close n) (moreItems (stop.move f) close n')
  | 0, _ => moves_exhausted_left
  | _ + 1, 0 => moves_exhausted_right
  | n + 1, n' + 1 => moves_peek.bind fun _ =>
      (moves_skip.bind fun _ => (moves_expression 0 n n').bind fun e =>
        (moves_moreItems close n n').bind fun es => moves_pure (e :: es)).ite
        ((moves_expect close).bind fun _ => moves_pure [])
termination_by structural n => n

end

end

end Parse

end Scriptlet
