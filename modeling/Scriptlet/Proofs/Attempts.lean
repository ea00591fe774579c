import Scriptlet.Proofs.Joining

/-!
# Attempts at statements

Reading goes from one attempt at a statement to the next, in blocks inside of other attempts too.
Here are the tokens that the attempts start at, reader by reader (`Parse.triesStatements` and those
below it). They stand among the tokens taken, in their order, because nothing that an attempt has
taken is left to another one: recovery may give back a closing brace, but then the block around ends
with it, and outside of blocks the brace is dropped (`Cursor.Arrives`). Each attempt gives a
statement or records an error, so tokens bound both together.
-/

namespace Scriptlet

namespace Parse

variable {α β : Type}

/-- The tokens that a reader tries to read statements from, given where it starts. -/
abbrev Trail := Cursor → List (Located Token)

def quiet : Trail := fun _ => []

/-- The trail of a reader and, unless it fails, of what goes on with its value. -/
def Trail.andThen (trail : Trail) (p : Parse α) (next : α → Trail) : Trail := fun c =>
  trail c ++
    match p c with
    | some (.ok a, c) => next a c
    | _ => []

/-! ## The trails of the readers -/

mutual

/-- Where statements are tried, up to the end of their block or of the text. -/
def triesStatements (stop : Located Token) (inBlock : Bool) : Nat → Trail
  | 0 => quiet
  | fuel + 1 =>
    quiet.andThen (peek stop) fun t =>
    if t.value.endsBlock inBlock then quiet
    else if t.value = .mark .semicolon then
      quiet.andThen (skip stop) fun _ => triesStatements stop inBlock fuel
    else
      Trail.andThen (fun c => t :: triesStatement stop fuel c) (attempt (statement stop fuel)) fun
      | .ok _ => triesStatements stop inBlock fuel
      | .error e => quiet.andThen (recover inBlock e) fun _ => triesStatements stop inBlock fuel

def triesStatement (stop : Located Token) : Nat → Trail
  | 0 => quiet
  | fuel + 1 =>
    quiet.andThen (peek stop) fun t =>
    match t.value with
    | .keyword .var =>
      quiet.andThen (skip stop) fun _ =>
      quiet.andThen (expectIdentifier stop) fun _ =>
      quiet.andThen (expect stop .assign) fun _ =>
      triesExpression stop 0 fuel
    | .keyword .return_ =>
      quiet.andThen (skip stop) fun _ =>
      quiet.andThen (peek stop) fun next =>
      if next.value.endsReturn then quiet else triesExpression stop 0 fuel
    | _ => triesExpression stop 0 fuel

def triesBlock (stop : Located Token) : Nat → Trail
  | 0 => quiet
  | fuel + 1 => triesStatements stop true fuel

def triesExpression (stop : Located Token) (level : Nat) : Nat → Trail
  | 0 => quiet
  | fuel + 1 =>
    quiet.andThen (read stop) fun t =>
    (triesOperand stop t fuel).andThen (operand stop t fuel) fun left =>
    triesContinuation stop level left fuel

def triesOperand (stop : Located Token) (t : Located Token) : Nat → Trail
  | 0 => quiet
  | fuel + 1 =>
    match t.value with
    | .mark .minus | .keyword .not => triesExpression stop PrefixOp.level fuel
    | .mark .leftParen => triesExpression stop 0 fuel
    | .mark .leftBracket => triesItems stop .rightBracket fuel
    | .keyword .if_ =>
      quiet.andThen (expect stop .leftParen) fun _ =>
      (triesExpression stop 0 fuel).andThen (expression stop 0 fuel) fun _ =>
      quiet.andThen (expect stop .rightParen) fun _ =>
      quiet.andThen (expect stop .leftBrace) fun _ =>
      (triesBlock stop fuel).andThen (block stop fuel) fun _ =>
      quiet.andThen (peek stop) fun next =>
      if next.value = .keyword .else_ then
        quiet.andThen (skip stop) fun _ =>
        quiet.andThen (expect stop .leftBrace) fun _ =>
        triesBlock stop fuel
      else quiet
    | .keyword .func =>
      quiet.andThen (expect stop .leftParen) fun _ =>
      quiet.andThen (parameters stop fuel) fun _ =>
      quiet.andThen (expect stop .leftBrace) fun _ =>
      triesBlock stop fuel
    | _ => quiet

def triesContinuation (stop : Located Token) (level : Nat) (left : Expr Unit) : Nat → Trail
  | 0 => quiet
  | fuel + 1 =>
    quiet.andThen (peek stop) fun t =>
    match t.value with
    | .mark .leftParen =>
      quiet.andThen (skip stop) fun _ =>
      (triesItems stop .rightParen fuel).andThen (items stop .rightParen fuel) fun arguments =>
      triesContinuation stop level (.call left arguments) fuel
    | .mark .leftBracket =>
      quiet.andThen (skip stop) fun _ =>
      (triesExpression stop 0 fuel).andThen (expression stop 0 fuel) fun position =>
      quiet.andThen (expect stop .rightBracket) fun _ =>
      triesContinuation stop level (.index left position) fuel
    | other =>
      match InfixOp.ofToken? other with
      | some op =>
        if level < op.level then
          quiet.andThen (skip stop) fun _ =>
          (triesExpression stop op.level fuel).andThen (expression stop op.level fuel) fun right =>
          triesContinuation stop level (.infixOp op left right) fuel
        else quiet
      | none => quiet

def triesItems (stop : Located Token) (close : Mark) : Nat → Trail
  | 0 => quiet
  | fuel + 1 =>
    quiet.andThen (peek stop) fun t =>
    if t.value = .mark close then quiet
    else
      (triesExpression stop 0 fuel).andThen (expression stop 0 fuel) fun _ =>
      triesMoreItems stop close fuel

def triesMoreItems (stop : Located Token) (close : Mark) : Nat → Trail
  | 0 => quiet
  | fuel + 1 =>
    quiet.andThen (peek stop) fun t =>
    if t.value = .mark .comma then
      quiet.andThen (skip stop) fun _ =>
      (triesExpression stop 0 fuel).andThen (expression stop 0 fuel) fun _ =>
      triesMoreItems stop close fuel
    else quiet

end

end Parse

/-- The tokens of a stream that an attempt to read a statement starts at, at whatever depth. There
is fuel enough for all of them. -/
def Stream.attempts (s : Stream) : List (Located Token) :=
  Parse.triesStatements s.eof false s.fuel ⟨s.eof, s.tokens, []⟩

/-! ## What an attempt takes -/

namespace Cursor

/-- Reading has come from one cursor to another and tried statements on the way, in the order of the
tokens taken. Every attempt has added one to the statements kept or to the errors, or nothing if its
statement was given up with one around it. -/
structure Tried (c c' : Cursor) (tried : List (Located Token)) (kept : Nat) : Prop where
  taken : ∃ taken, c.rest = taken ++ c'.rest ∧
    tried.Sublist (taken.filter fun t => t.value ≠ .mark .semicolon)
  counted : kept + c'.errors.length ≤ c.errors.length + tried.length

/-- Reading has come to a place where statements go on. In a block a closing brace may have been
given back, which the block ends with. -/
def Arrives (stop : Located Token) (inBlock : Bool) (c c' : Cursor) (tried : List (Located Token))
    (kept : Nat) : Prop :=
  c.Tried c' tried kept ∨
    inBlock = true ∧ (c'.next stop).value = .mark .rightBrace ∧
      c.Tried (c'.advance stop) tried kept

variable {stop t : Located Token} {c c₁ c₂ : Cursor} {tried tried' : List (Located Token)}
  {kept kept' : Nat} {inBlock : Bool}

theorem Tried.trans (h : c.Tried c₁ tried kept) (h' : c₁.Tried c₂ tried' kept') :
    c.Tried c₂ (tried ++ tried') (kept + kept') where
  taken := by
    obtain ⟨taken, hrest, htried⟩ := h.taken
    obtain ⟨taken', hrest', htried'⟩ := h'.taken
    refine ⟨taken ++ taken', by rw [hrest, hrest', List.append_assoc], ?_⟩
    rw [List.filter_append]
    exact htried.append htried'
  counted := by
    have hfirst := h.counted
    have hsecond := h'.counted
    rw [List.length_append]
    omega

/-- Reading that tries nothing and records nothing. -/
theorem tried_of_suffix (hrest : c₁.rest <:+ c.rest) (herrors : c₁.errors = c.errors) :
    c.Tried c₁ [] 0 where
  taken := by
    obtain ⟨taken, htaken⟩ := hrest
    exact ⟨taken, htaken.symm, List.nil_sublist _⟩
  counted := by simp [herrors]

theorem Tried.refl (c : Cursor) : c.Tried c [] 0 :=
  tried_of_suffix (List.suffix_refl _) rfl

theorem tried_advance (c : Cursor) : c.Tried (c.advance stop) [] 0 :=
  tried_of_suffix (List.tail_suffix _) rfl

/-- The statements of a block are none of the statements around it. -/
theorem Tried.forget (h : c.Tried c₁ tried kept) : c.Tried c₁ tried 0 where
  taken := h.taken
  counted := by
    have hcounted := h.counted
    omega

theorem Tried.arrives (h : c.Tried c₁ tried kept) : c.Arrives stop inBlock c₁ tried kept :=
  .inl h

/-- A block that has ended is left behind its closing brace. -/
theorem Arrives.advance (h : c.Arrives stop inBlock c₁ tried kept) :
    c.Tried (c₁.advance stop) tried kept := by
  rcases h with h | ⟨-, -, h⟩
  · simpa using h.trans (tried_advance c₁)
  · exact h

/-- An attempt at the next token, with what was tried behind this token in its course. -/
theorem tried_attempt (hstop : stop.value = .eof) (hne : (c.next stop).value ≠ .eof)
    (ht : (c.next stop).value ≠ .mark .semicolon) (h : (c.advance stop).Tried c₁ tried 0)
    (hrest : c₂.rest <:+ c₁.rest) (hkept : kept + c₂.errors.length ≤ c₁.errors.length + 1) :
    c.Tried c₂ (c.next stop :: tried) kept where
  taken := by
    cases hr : c.rest with
    | nil => exact absurd (by rw [next_of_nil hr, hstop]) hne
    | cons u us =>
      obtain ⟨taken, htaken, htried⟩ := h.taken
      obtain ⟨more, hmore⟩ := hrest
      rw [next_of_cons hr] at ht ⊢
      have hus : us = taken ++ c₁.rest := by simpa [hr] using htaken
      refine ⟨u :: taken ++ more, by simp [hus, ← hmore], ?_⟩
      rw [List.filter_append, List.filter_cons_of_pos (by simpa using ht)]
      exact (htried.cons_cons u).trans (List.sublist_append_left _ _)
  counted := by
    have hinner := h.counted
    rw [advance_errors] at hinner
    rw [List.length_cons]
    omega

/-- An attempt that fails. -/
theorem Tried.arrives_recovered (hc : c.Tried c₁ tried kept) (hstop : stop.value = .eof)
    (hne : (c₁.next stop).value ≠ .eof) (ht : (c₁.next stop).value ≠ .mark .semicolon)
    (h : (c₁.advance stop).Tried c₂ tried' 0) (e : ParseError) :
    c.Arrives stop inBlock ⟨c₂.last, c₂.recovered inBlock, e :: c₂.errors⟩
      (tried ++ c₁.next stop :: tried') kept := by
  have attempt (rest : List (Located Token)) (hrest : rest <:+ c₂.rest) :
      c.Tried ⟨c₂.last, rest, e :: c₂.errors⟩ (tried ++ c₁.next stop :: tried') kept := by
    have hattempt : c₁.Tried ⟨c₂.last, rest, e :: c₂.errors⟩ (c₁.next stop :: tried') 0 :=
      tried_attempt hstop hne ht h hrest (by simp)
    exact hc.trans hattempt
  rcases Parse.recovered_cases inBlock c₂ with hrest | ⟨hblock, hbrace, hrest⟩
  · exact .inl (attempt _ hrest)
  · have hback : (⟨c₂.last, c₂.recovered inBlock, e :: c₂.errors⟩ : Cursor).advance stop =
        ⟨c₂.last, c₂.rest, e :: c₂.errors⟩ := by
      simp [Cursor.advance, next, hrest]
    refine .inr ⟨hblock, by simpa [next, hrest] using hbrace, ?_⟩
    rw [hback]
    exact attempt _ (List.suffix_refl _)

end Cursor

/-! ## The readers, one by one -/

namespace Parse

open Cursor

variable {α β : Type} {stop : Located Token}

def Tracks (p : Parse α) (trail : Trail) : Prop :=
  ∀ c, p.wp c (fun _ c' => c.Tried c' (trail c) 0) fun _ c' => c.Tried c' (trail c) 0

/-- As `Tracks`, for a reader that takes a token before it tries anything. -/
def TracksPast (stop : Located Token) (p : Parse α) (trail : Trail) : Prop :=
  ∀ c, p.wp c (fun _ c' => (c.advance stop).Tried c' (trail c) 0) fun _ c' =>
    (c.advance stop).Tried c' (trail c) 0

theorem andThen_quiet (trail : Trail) (p : Parse α) :
    trail.andThen p (fun _ => quiet) = trail := by
  funext c
  unfold Trail.andThen quiet
  split <;> exact List.append_nil _

theorem TracksPast.tracks {p : Parse α} {trail : Trail} (h : TracksPast stop p trail) :
    Tracks p trail :=
  fun c => wp_mono (h c) (fun _ _ => (tried_advance c).trans) fun _ _ => (tried_advance c).trans

theorem tracks_exhausted {trail : Trail} : Tracks (exhausted : Parse α) trail :=
  fun _ => wp_exhausted

theorem tracks_pure (a : α) : Tracks (pure a) quiet :=
  fun c => Tried.refl c

theorem tracks_fail (e : ParseError) : Tracks (fail e : Parse α) quiet :=
  fun c => Tried.refl c

theorem tracksPast_read : TracksPast stop (read stop) quiet :=
  fun c => Tried.refl (c.advance stop)

theorem tracksPast_skip : TracksPast stop (skip stop) quiet :=
  fun c => Tried.refl (c.advance stop)

theorem tracks_skip : Tracks (skip stop) quiet :=
  tracksPast_skip.tracks

theorem Tracks.ite {P : Prop} [Decidable P] {p q : Parse α} {trail trail' : Trail}
    (hp : Tracks p trail) (hq : Tracks q trail') :
    Tracks (if P then p else q) (if P then trail else trail') := by
  split
  · exact hp
  · exact hq

/-- What is read behind a first reader is tracked from where that one started. -/
theorem wp_andThen {p : Parse α} {next : α → Parse β} {trail : Trail} {trail' : α → Trail}
    {c₀ c : Cursor}
    (hp : p.wp c (fun _ c' => c₀.Tried c' (trail c) 0) fun _ c' => c₀.Tried c' (trail c) 0)
    (hnext : ∀ a, Tracks (next a) (trail' a)) :
    (p >>= next).wp c (fun _ c' => c₀.Tried c' (trail.andThen p trail' c) 0) fun _ c' =>
      c₀.Tried c' (trail.andThen p trail' c) 0 := by
  rw [wp_bind]
  unfold Trail.andThen
  unfold wp at hp ⊢
  rcases hr : p c with _ | ⟨e | a, c₁⟩
  · trivial
  · simpa [hr] using hp
  · rw [hr] at hp
    exact wp_mono (hnext a c₁) (fun _ _ => hp.trans) fun _ _ => hp.trans

theorem Tracks.bind {p : Parse α} {next : α → Parse β} {trail : Trail} {trail' : α → Trail}
    (hp : Tracks p trail) (hnext : ∀ a, Tracks (next a) (trail' a)) :
    Tracks (p >>= next) (trail.andThen p trail') :=
  fun c => wp_andThen (hp c) hnext

theorem TracksPast.bind {p : Parse α} {next : α → Parse β} {trail : Trail} {trail' : α → Trail}
    (hp : TracksPast stop p trail) (hnext : ∀ a, Tracks (next a) (trail' a)) :
    TracksPast stop (p >>= next) (trail.andThen p trail') :=
  fun c => wp_andThen (hp c) hnext

/-- Nothing is tried behind a first reader. -/
theorem Tracks.bind_quiet {p : Parse α} {next : α → Parse β} {trail : Trail} (hp : Tracks p trail)
    (hnext : ∀ a, Tracks (next a) quiet) : Tracks (p >>= next) trail := by
  rw [← andThen_quiet trail p]
  exact hp.bind hnext

theorem TracksPast.bind_quiet {p : Parse α} {next : α → Parse β} {trail : Trail}
    (hp : TracksPast stop p trail) (hnext : ∀ a, Tracks (next a) quiet) :
    TracksPast stop (p >>= next) trail := by
  rw [← andThen_quiet trail p]
  exact hp.bind hnext

theorem Tracks.peek_bind {next : Located Token → Parse α} {trail : Located Token → Trail}
    (h : ∀ t, Tracks (next t) (trail t)) :
    Tracks (peek stop >>= next) (quiet.andThen (peek stop) trail) :=
  Tracks.bind (fun c => Tried.refl c) h

theorem TracksPast.peek_bind {next : Located Token → Parse α} {trail : Located Token → Trail}
    (h : ∀ t, TracksPast stop (next t) (trail t)) :
    TracksPast stop (peek stop >>= next) (quiet.andThen (peek stop) trail) :=
  fun c => (wp_bind _ _).2 (h (c.next stop) c)

theorem tracks_expect (m : Mark) : Tracks (expect stop m) quiet := by
  unfold expect
  intro c
  rw [wp_bind, wp_peek]
  split
  · exact tried_advance c
  · exact Tried.refl c

theorem tracks_expectIdentifier : Tracks (expectIdentifier stop) quiet := by
  intro c
  rw [wp_expectIdentifier]
  split
  · exact tried_advance c
  · exact Tried.refl c

theorem tracks_skipSemicolon : Tracks (skipSemicolon stop) quiet := by
  intro c
  rw [wp_skipSemicolon]
  split
  · exact tried_advance c
  · exact Tried.refl c

theorem triesStatements_succ (inBlock : Bool) (n : Nat) (c : Cursor) :
    triesStatements stop inBlock (n + 1) c =
      if (c.next stop).value.endsBlock inBlock then []
      else if (c.next stop).value = .mark .semicolon then
        triesStatements stop inBlock n (c.advance stop)
      else
        c.next stop :: triesStatement stop n c ++
          match statement stop n c with
          | none => []
          | some (.ok _, c₁) => triesStatements stop inBlock n c₁
          | some (.error e, c₁) =>
            triesStatements stop inBlock n ⟨c₁.last, c₁.recovered inBlock, e :: c₁.errors⟩ := by
  rw [triesStatements]
  change (if (c.next stop).value.endsBlock inBlock then quiet else _ : Trail) c = _
  split
  · rfl
  · change (if (c.next stop).value = .mark .semicolon then _ else _ : Trail) c = _
    split
    · rfl
    · unfold Trail.andThen attempt
      rcases statement stop n c with _ | ⟨e | s, c₁⟩ <;> rfl

theorem tracks_moreParameters (n : Nat) : Tracks (moreParameters stop n) quiet := by
  induction n with
  | zero => exact tracks_exhausted
  | succ n ih =>
    have more : Tracks (do
        skip stop
        let name ← expectIdentifier stop
        let names ← moreParameters stop n
        return name :: names) quiet :=
      tracks_skip.bind_quiet fun _ => tracks_expectIdentifier.bind_quiet fun _ =>
        ih.bind_quiet fun _ => tracks_pure _
    refine Tracks.bind_quiet (fun c => Tried.refl c) fun t => ?_
    split
    · exact more
    · exact (tracks_expect _).bind_quiet fun _ => tracks_pure _

theorem tracks_parameters (n : Nat) : Tracks (parameters stop n) quiet := by
  refine Tracks.bind_quiet (fun c => Tried.refl c) fun t => ?_
  split
  · exact tracks_skip.bind_quiet fun _ => tracks_pure _
  · exact tracks_expectIdentifier.bind_quiet fun _ => (tracks_moreParameters n).bind_quiet fun _ =>
      tracks_pure _

mutual

theorem arrives_statements (hstop : stop.value = .eof) (inBlock : Bool) (c₀ : Cursor) :
    ∀ n (c : Cursor) (tried : List (Located Token)) (kept : Nat),
      c₀.Arrives stop inBlock c tried kept →
      (statements stop inBlock n).wp c
        (fun p c' => c₀.Arrives stop inBlock c' (tried ++ triesStatements stop inBlock n c)
          (kept + p.length)) fun _ _ => False
  | 0, _, _, _, _ => wp_exhausted
  | n + 1, c, tried, kept, hc => by
    have next := arrives_statements hstop inBlock c₀ n
    rw [triesStatements_succ]
    simp only [statements, wp_bind, wp_peek]
    split
    next => simpa using hc
    next hend =>
      -- no block goes on at its closing brace
      have hc : c₀.Tried c tried kept := hc.resolve_right fun ⟨hblock, hbrace, _⟩ => hend (by
        rw [hbrace, hblock]
        rfl)
      have hne : (c.next stop).value ≠ .eof := fun h => hend (by simp [h, Token.endsBlock])
      split
      next =>
        rw [wp_bind, wp_skip]
        have hskip : c₀.Tried (c.advance stop) tried kept := by
          simpa using hc.trans (tried_advance c)
        exact next _ _ _ hskip.arrives
      next ht =>
        rw [wp_bind, wp_attempt]
        refine wp_mono (wp_and (wp_self _ c) (tracks_statement hstop n c))
          (fun s c₁ ⟨hs, htried⟩ => ?_) fun e c₁ ⟨hs, htried⟩ => ?_
        · have hstatement : c.Tried c₁ (c.next stop :: triesStatement stop n c) 1 :=
            tried_attempt hstop hne ht htried (List.suffix_refl _) (by omega)
          rw [wp_bind, hs]
          refine wp_mono (next c₁ _ _ (hc.trans hstatement).arrives) (fun p c' h => ?_)
            fun _ _ => False.elim
          rw [wp_pure]
          simpa [Nat.add_assoc, Nat.add_comm 1] using h
        · rw [wp_bind, wp_recover, hs]
          simpa using next _ _ _ (hc.arrives_recovered hstop hne ht htried e)

theorem tracks_statement (hstop : stop.value = .eof) :
    ∀ n, TracksPast stop (statement stop n) (triesStatement stop n)
  | 0 => fun _ => wp_exhausted
  | n + 1 => by
    have expr := tracks_expression hstop 0 n
    have tail (f : Expr Unit → Stmt Unit) (value : Expr Unit) :
        Tracks (do skipSemicolon stop; return f value) quiet :=
      tracks_skipSemicolon.bind_quiet fun _ => tracks_pure _
    unfold statement triesStatement
    refine .peek_bind fun t => ?_
    -- the trail stands aside while the reader is split
    suffices h : ∀ trail, _ = trail → TracksPast stop _ trail from h _ rfl
    intro trail htrail
    split
    all_goals
      simp only [*] at htrail
      subst htrail
    · exact tracksPast_skip.bind fun _ => tracks_expectIdentifier.bind fun name =>
        (tracks_expect _).bind fun _ => expr.tracks.bind_quiet (tail (.var name))
    · refine tracksPast_skip.bind fun _ => .peek_bind fun _ => .ite ?_ ?_
      · exact tracks_skipSemicolon.bind_quiet fun _ => tracks_pure _
      · exact expr.tracks.bind_quiet (tail .ret)
    · exact expr.bind_quiet (tail .expr)

theorem tracks_block (hstop : stop.value = .eof) : ∀ n, Tracks (block stop n) (triesBlock stop n)
  | 0 => tracks_exhausted
  | n + 1 => by
    intro c
    simp only [block, wp_bind, triesBlock]
    have hstart : c.Arrives stop true c [] 0 := (Tried.refl c).arrives
    refine wp_mono (arrives_statements hstop true c n c [] 0 hstart) (fun body c₁ h => ?_)
      fun _ _ => False.elim
    have hend : c.Tried (c₁.advance stop) (triesStatements stop true n c) 0 :=
      h.advance.forget
    rw [wp_read]
    split
    · exact hend
    · exact hend

theorem tracks_expression (hstop : stop.value = .eof) (level : Nat) :
    ∀ n, TracksPast stop (expression stop level n) (triesExpression stop level n)
  | 0 => fun _ => wp_exhausted
  | n + 1 => tracksPast_read.bind fun t => (tracks_operand hstop t n).bind fun left =>
      tracks_continuation hstop level left n

theorem tracks_operand (hstop : stop.value = .eof) (t : Located Token) :
    ∀ n, Tracks (operand stop t n) (triesOperand stop t n)
  | 0 => tracks_exhausted
  | n + 1 => by
    have expr (level : Nat) := (tracks_expression hstop level n).tracks
    have body := tracks_block hstop n
    unfold operand
    split
    all_goals simp only [triesOperand, *]
    · exact tracks_pure _
    · split
      · exact tracks_pure _
      · exact tracks_fail _
    · exact tracks_pure _
    · exact tracks_pure _
    · exact tracks_pure _
    · exact tracks_pure _
    · exact (expr _).bind_quiet fun _ => tracks_pure _
    · exact (expr _).bind_quiet fun _ => tracks_pure _
    · exact (expr 0).bind_quiet fun _ => (tracks_expect _).bind_quiet fun _ => tracks_pure _
    · exact (tracks_items hstop _ n).bind_quiet fun _ => tracks_pure _
    · refine (tracks_expect _).bind fun _ => (expr 0).bind fun _ => (tracks_expect _).bind fun _ =>
        (tracks_expect _).bind fun _ => body.bind fun _ => .peek_bind fun _ => .ite ?_ ?_
      · exact tracks_skip.bind fun _ => (tracks_expect _).bind fun _ => body.bind_quiet fun _ =>
          tracks_pure _
      · exact tracks_pure _
    · exact (tracks_expect _).bind fun _ => (tracks_parameters n).bind fun _ =>
        (tracks_expect _).bind fun _ => body.bind_quiet fun _ => tracks_pure _
    · exact tracks_fail _
    · exact tracks_fail _

theorem tracks_continuation (hstop : stop.value = .eof) (level : Nat) (left : Expr Unit) :
    ∀ n, Tracks (continuation stop level left n) (triesContinuation stop level left n)
  | 0 => tracks_exhausted
  | n + 1 => by
    refine .peek_bind fun t => ?_
    -- the trail stands aside while the reader is split
    suffices h : ∀ trail, _ = trail → Tracks _ trail from h _ rfl
    intro trail htrail
    split
    all_goals
      simp only [*] at htrail
      subst htrail
    · exact tracks_skip.bind fun _ => (tracks_items hstop _ n).bind fun _ =>
        tracks_continuation hstop level _ n
    · exact tracks_skip.bind fun _ => (tracks_expression hstop 0 n).tracks.bind fun _ =>
        (tracks_expect _).bind fun _ => tracks_continuation hstop level _ n
    · cases InfixOp.ofToken? t.value with
      | none => exact tracks_pure _
      | some op =>
        exact .ite (tracks_skip.bind fun _ => (tracks_expression hstop _ n).tracks.bind fun _ =>
          tracks_continuation hstop level _ n) (tracks_pure _)

theorem tracks_items (hstop : stop.value = .eof) (close : Mark) :
    ∀ n, Tracks (items stop close n) (triesItems stop close n)
  | 0 => tracks_exhausted
  | n + 1 => by
    refine .peek_bind fun t => .ite ?_ ?_
    · exact tracks_skip.bind_quiet fun _ => tracks_pure _
    · exact (tracks_expression hstop 0 n).tracks.bind fun _ =>
        (tracks_moreItems hstop close n).bind_quiet fun _ => tracks_pure _

theorem tracks_moreItems (hstop : stop.value = .eof) (close : Mark) :
    ∀ n, Tracks (moreItems stop close n) (triesMoreItems stop close n)
  | 0 => tracks_exhausted
  | n + 1 => by
    refine .peek_bind fun t => .ite ?_ ?_
    · exact tracks_skip.bind fun _ => (tracks_expression hstop 0 n).tracks.bind fun _ =>
        (tracks_moreItems hstop close n).bind_quiet fun _ => tracks_pure _
    · exact (tracks_expect _).bind_quiet fun _ => tracks_pure _

end

end Parse

namespace Stream

/-- Reading a stream ends with what `Stream.parse` says, also with more fuel than that has. -/
theorem statements_eq_parse (s : Stream) {n : Nat} (hn : s.fuel ≤ n) :
    ∃ c, statements s.eof false n ⟨s.eof, s.tokens, []⟩ = some (.ok s.parse.program, c) ∧
      c.errors.reverse = s.parse.errors := by
  have hsize : 8 * s.tokens.length + 4 ≤ n := by
    unfold fuel at hn
    omega
  have hends : (statements s.eof false n).Ends ⟨s.eof, s.tokens, []⟩ :=
    Parse.within_statements rfl false n s.tokens.length hsize _ (Nat.le_refl _)
  have hread : (statements s.eof false n).Accepts ⟨s.eof, s.tokens, []⟩ fun p c =>
      p = s.parse.program ∧ c.errors.reverse = s.parse.errors := by
    simpa [Located.move_id, ParseError.move_id] using s.accepts_moved id s.eof n
  unfold Parse.Accepts Parse.wp at hread
  rcases hr : statements s.eof false n ⟨s.eof, s.tokens, []⟩ with _ | ⟨e | p, c⟩
  · exact absurd hr hends
  · rw [hr] at hread
    exact hread.elim
  · rw [hr] at hread
    obtain ⟨rfl, herrors⟩ := hread
    exact ⟨c, rfl, herrors⟩

/-- The attempts at statements start at tokens of the stream, in their order and none at a
semicolon. Each statement read outside of blocks and each error comes from an attempt of its own. -/
theorem attempts_spec (s : Stream) :
    s.attempts.Sublist (s.tokens.filter fun t => t.value ≠ .mark .semicolon) ∧
      s.parse.program.length + s.parse.errors.length ≤ s.attempts.length := by
  let start : Cursor := ⟨s.eof, s.tokens, []⟩
  have hstart : start.Arrives s.eof false start [] 0 := (Cursor.Tried.refl start).arrives
  obtain ⟨p, c, hparse, hc⟩ := s.parse_spec (Parse.wp_mono
    (Parse.arrives_statements rfl false start s.fuel start [] 0 hstart) (fun _ _ => id)
    fun _ _ => False.elim)
  have hc : start.Tried c s.attempts p.length := by
    simpa [attempts, start] using hc.resolve_right (by simp)
  obtain ⟨taken, hrest, htried⟩ := hc.taken
  have hcounted := hc.counted
  refine ⟨htried.trans ?_, by simpa [hparse, start] using hcounted⟩
  have htaken : taken.Sublist s.tokens := by
    rw [show s.tokens = taken ++ c.rest from hrest]
    exact List.sublist_append_left _ _
  exact htaken.filter _

end Stream

/-- Reading a text always comes to an end, with any fuel that is enough. Every attempt to read a
statement, at whatever depth, starts at another token than the attempts before it, namely further
on, and none starts at a semicolon. So there are at most as many statements and errors as such
tokens. -/
theorem parse_makes_progress (source : String) :
    let s : Stream := Stream.ofText source
    let starts := s.tokens.filter fun t => t.value ≠ .mark .semicolon
    (∀ extra, ∃ c, statements s.eof false (s.fuel + extra) ⟨s.eof, s.tokens, []⟩ =
        some (.ok (parse source).program, c) ∧ c.errors.reverse = (parse source).errors) ∧
      s.attempts.Sublist starts ∧
      s.attempts.Pairwise (fun t u => t.span.start < u.span.start) ∧
      (parse source).program.length + (parse source).errors.length ≤ s.attempts.length ∧
      (parse source).program.length + (parse source).errors.length ≤ starts.length := by
  intro s starts
  have htiled : Tiled source 0 s.tokens := tiled_tokensFrom 0 source.toList [] rfl rfl
  have hascending : s.tokens.Pairwise fun t u => t.span.start < u.span.start :=
    htiled.pairwise.imp_of_mem fun ht _ htu =>
      Nat.lt_of_lt_of_le (htiled.start_lt_stop _ ht) htu
  have ⟨hsublist, hcount⟩ := s.attempts_spec
  refine ⟨fun extra => s.statements_eq_parse (Nat.le_add_right _ _), hsublist, ?_, hcount,
    Nat.le_trans hcount hsublist.length_le⟩
  exact hascending.sublist (hsublist.trans List.filter_sublist)

end Scriptlet
