import Scriptlet.Proofs.Acceptance
import Scriptlet.Proofs.Locality

/-!
# What is lost with a malformed statement

A malformed statement in the body of a function should be all that is lost. It is, if recovery meets
every brace in a pair. As recovery starts at the token that was read last, it may meet the closing
brace of a block inside the statement without the opening one, and takes it for the end of the body.
Then what stands behind the statement is read outside of the function.
-/

namespace Scriptlet

open Grammar Parse Cursor

/-- The tokens of a function without parameters, whose body are these tokens with semicolons
between. -/
def funcTokens (P B Q : List Token) : List Token :=
  .keyword .func :: .mark .leftParen :: .mark .rightParen ::
    braces (P ++ .mark .semicolon :: (B ++ .mark .semicolon :: Q))

def Between (s : Stream) (p : Program) (B : List Token) (q : Program) : Prop :=
  ∃ P Q : String, parse P = ⟨p, []⟩ ∧ parse Q = ⟨q, []⟩ ∧
    s.values = funcTokens (lexemes P.toList) B (lexemes Q.toList)

/-- Tokens with braces in pairs and no semicolon between statements, that cannot be read as a
statement. Reading fails at the cursor `c`. -/
structure Malformed (B : List Token) (c : Cursor) : Prop where
  ne_nil : B ≠ []
  braces : nested 0 B = true
  fails : ∃ (s : Stream) (n : Nat) (e : ParseError), s.values = B ++ [.mark .semicolon] ∧
    statement s.eof n ⟨s.eof, s.tokens, []⟩ = some (.error e, c)

/-- The tokens that recovery skips in front of the last one. -/
def Cursor.skipped (c : Cursor) : List Token :=
  (c.last.value :: c.values).dropLast

variable {s : Stream} {stop : Located Token} {B U : List Token} {p q : Program} {c c₁ : Cursor}
  {n : Nat}

/-! ## The malformed statement -/

theorem Malformed.starts (hB : Malformed B c₁) (hc : c.values = B ++ U) (inBlock : Bool) :
    (c.next stop).value.endsBlock inBlock = false ∧ (c.next stop).value ≠ .mark .semicolon := by
  cases B with
  | nil => exact absurd rfl hB.ne_nil
  | cons t ts =>
    have hbraces := hB.braces
    rw [value_next_of_cons hc]
    rcases nested_cons hbraces with ⟨rfl, -⟩ | ⟨-, hd, -⟩ | ⟨-, hd, -⟩ | ⟨⟨-, hr, hs, he⟩, -⟩
    · exact ⟨by simp [Token.endsBlock], by simp⟩
    · exact absurd rfl hd
    · exact absurd rfl hd
    · exact ⟨by simp [Token.endsBlock], hs⟩

/-- Wherever the statement stands, reading it fails at the same place. -/
theorem Malformed.wp_statement (hB : Malformed B c₁)
    (hc : c.values = B ++ .mark .semicolon :: U) :
    (statement stop n).wp c (fun _ _ => False) fun _ c' =>
      ∃ d, c'.last.value :: c'.values = c₁.skipped ++ .mark .semicolon :: U ∧
        nested d c₁.skipped = true := by
  obtain ⟨s, m, e, hs, hfail⟩ := hB.fails
  have hahead : Ahead [.mark .semicolon] (.mark .semicolon :: U) 0 ⟨s.eof, s.tokens, []⟩ c :=
    ⟨B, 0, hs, hc, hB.braces, Nat.le_refl 0⟩
  unfold wp
  rcases hr : statement stop n c with _ | ⟨r, c'⟩
  · trivial
  cases twin_statement (barrier_semicolon [] U 0) m n _ _ hahead _ _ _ _ hfail hr with
  | error _ e' h =>
    obtain ⟨X, d, hX, hX', hnested, -⟩ := h
    have hskipped : c₁.skipped = X := by simp [skipped, hX]
    exact ⟨d, hskipped ▸ hX', hskipped ▸ hnested⟩

/-- The cursor is behind a malformed statement that was skipped, and the error is recorded. -/
structure Resynchronized (c₁ : Cursor) (U : List Token) (c : Cursor) : Prop where
  rest : ∃ row d, c.rest = skipStatement 0 row ∧
    row.map (·.value) = c₁.skipped ++ .mark .semicolon :: U ∧ nested d c₁.skipped = true
  errors : c.errors ≠ []

theorem Resynchronized.values (h : Resynchronized c₁ U c) (hpaired : nested 0 c₁.skipped = true) :
    c.values = U := by
  obtain ⟨row, d, hrest, hrow, -⟩ := h.rest
  rw [Cursor.values, hrest]
  exact skipStatement_of_nested hrow hpaired

theorem Resynchronized.ahead (h : Resynchronized c₁ U c) (hpaired : nested 0 c₁.skipped ≠ true) :
    Ahead (.mark .semicolon :: U) (.mark .semicolon :: U) 1 c c := by
  obtain ⟨row, d, hrest, hrow, hnested⟩ := h.rest
  have hd : d ≠ 0 := by
    rintro rfl
    exact hpaired hnested
  obtain ⟨Y, hY, -, hY₀⟩ := @aligned_skipStatement _ _ _ 0 d row row hrow hrow hnested hd
  rw [← hrest] at hY
  exact ⟨Y, d, hY, hY, hY₀, Nat.one_le_iff_ne_zero.2 hd⟩

/-- What is read behind statements and a malformed one is what is read where recovery stops. -/
theorem Malformed.wp_statements (hB : Malformed B c₁) (hstop : stop.value = .eof)
    {P : List Token} (hP : Statements P p)
    (hc : c.values = P ++ .mark .semicolon :: (B ++ .mark .semicolon :: U))
    {Q : Program → Cursor → Prop} {E : ParseError → Cursor → Prop}
    (h : ∀ n' c', Resynchronized c₁ U c' →
      (statements stop true n').wp c' (fun p' c'' => Q (p ++ p') c'') E) :
    (statements stop true n).wp c Q E := by
  refine proceeds_statements hstop true rfl hP n c hc Q E fun n' c' hr => ?_
  rcases n' with _ | _ | n'
  · exact wp_exhausted
  · rw [wp_statements_semicolon (value_next_of_cons hr.values)]
    exact wp_exhausted
  have hvalues : (c'.advance stop).values = B ++ .mark .semicolon :: U := by simp [hr.values]
  obtain ⟨hend, hne⟩ := @Malformed.starts stop B _ _ _ hB hvalues true
  rw [wp_statements_semicolon (value_next_of_cons hr.values), wp_statements_statement hend hne]
  refine wp_mono (hB.wp_statement hvalues) (fun _ _ => False.elim) fun e c₂ ⟨d, hrow, hd⟩ => ?_
  exact h n' _ ⟨⟨c₂.last :: c₂.rest, d, rfl, hrow, hd⟩, List.cons_ne_nil _ _⟩

/-! ## The function around it -/

def behindBody (stop : Located Token) (body : Program) (n : Nat) : Parse (Stmt Unit) := do
  let e ← continuation stop 0 (.func () [] body) n
  skipSemicolon stop
  return .expr e

theorem keeps_behindBody (hstop : stop.value = .eof) :
    Keeps (From stop) (behindBody stop p n) :=
  (keeps_continuation hstop 0 _ n).bind fun _ => keeps_skipSemicolon.bind fun _ => keeps_pure _

theorem twin_behindBody {S S' : List Token} (hS : Barrier S S' 0) :
    Twin (Amid S S' 0) (Done S S' 0) (Behind S S' 0) (behindBody stop p n)
      (behindBody stop p n) :=
  (twin_continuation hS 0 _ n n).bind fun _ => (twin_skipSemicolon hS).bind fun _ =>
    twin_pure _ fun _ _ => id

def AfterError (stop : Located Token) (R : Program → Cursor → Prop) (e : ParseError)
    (c : Cursor) : Prop :=
  ∀ n, (statements stop false n).wp ⟨c.last, c.recovered false, e :: c.errors⟩ R fun _ _ => True

def AfterBody (stop : Located Token) (R : Program → Cursor → Prop) (body : Program)
    (c : Cursor) : Prop :=
  ∀ m, (behindBody stop body m).wp c
    (fun t c' => ∀ n, (statements stop false n).wp c' (fun p c'' => R (t :: p) c'')
      fun _ _ => True)
    (AfterError stop R)

/-- Reading the row of a function comes to reading its block and going on behind it. -/
theorem wp_statements_func (hstop : stop.value = .eof) {ts : List Token}
    (hc : c.values = .keyword .func :: .mark .leftParen :: .mark .rightParen ::
      .mark .leftBrace :: ts)
    {R : Program → Cursor → Prop}
    (h : ∀ m c', c'.values = ts → (block stop m).wp c' (AfterBody stop R) (AfterError stop R)) :
    (statements stop false n).wp c R fun _ _ => True := by
  have ht : (c.next stop).value = .keyword .func := value_next_of_cons hc
  have hopen : ((c.advance stop).next stop).value = .mark .leftParen := by
    simp [value_next hstop, hc]
  have hclose : (((c.advance stop).advance stop).next stop).value = .mark .rightParen := by
    simp [value_next hstop, hc]
  have hbrace : ((((c.advance stop).advance stop).advance stop).next stop).value =
      .mark .leftBrace := by
    simp [value_next hstop, hc]
  rcases n with _ | n
  · exact wp_exhausted
  rw [wp_statements_statement (by simp [ht, Token.endsBlock]) (by simp [ht])]
  -- one unit of fuel for each reader on the way to the block
  rcases n with _ | _ | _ | n
  · exact wp_exhausted
  · simp only [statement, ht, expression, wp_bind, wp_peek, wp_exhausted]
  · simp only [statement, ht, expression, operand, wp_bind, wp_peek, wp_read, wp_exhausted]
  simp only [statement, ht, expression, operand, wp_bind, wp_peek, wp_read, wp_expect]
  rw [if_pos hopen, parameters, wp_bind, wp_peek, if_pos hclose, wp_bind, wp_skip, wp_pure,
    if_pos hbrace]
  refine wp_mono (h n _ (by simp [hc])) (fun b c₂ hb => ?_) fun _ _ hs => hs _
  simp only [AfterBody, behindBody, wp_bind, wp_pure] at hb ⊢
  exact wp_mono (hb _) (fun e c₃ he => wp_mono he (fun _ _ hs => hs _) fun _ _ hs => hs _)
    fun _ _ hs => hs _

theorem Between.sentences (h : Between s p B q) :
    ∃ P Q, Statements P p ∧ Statements Q q ∧
      (⟨s.eof, s.tokens, []⟩ : Cursor).values = .keyword .func :: .mark .leftParen ::
        .mark .rightParen :: .mark .leftBrace :: (P ++ .mark .semicolon ::
          (B ++ .mark .semicolon :: (Q ++ [.mark .rightBrace]))) := by
  obtain ⟨P, Q, hP, hQ, hs⟩ := h
  refine ⟨_, _, statements_of_parse hP, statements_of_parse hQ, ?_⟩
  change s.values = _
  simp [hs, funcTokens, Grammar.braces, enclosed]

/-- What the function is read as is decided by what is read from where recovery stops. -/
theorem Malformed.parse_spec (hB : Malformed B c₁) {P : List Token} (hP : Statements P p)
    (hs : (⟨s.eof, s.tokens, []⟩ : Cursor).values = .keyword .func :: .mark .leftParen ::
      .mark .rightParen :: .mark .leftBrace :: (P ++ .mark .semicolon ::
        (B ++ .mark .semicolon :: U)))
    {R : Program → Cursor → Prop}
    (h : ∀ n c, Resynchronized c₁ U c → (statements s.eof true n).wp c
      (fun p' c' =>
        if (c'.next s.eof).value = .mark .rightBrace then
          AfterBody s.eof R (p ++ p') (c'.advance s.eof)
        else
          AfterError s.eof R (.expected (.mark .rightBrace) (c'.next s.eof)) (c'.advance s.eof))
      fun _ _ => False) :
    ∃ p' c', s.parse = ⟨p', c'.errors.reverse⟩ ∧ R p' c' := by
  refine s.parse_spec (wp_statements_func rfl hs fun m c hc => ?_)
  rcases m with _ | m
  · exact wp_exhausted
  rw [block, wp_bind]
  refine hB.wp_statements rfl hP hc fun n' c' hr => ?_
  refine wp_mono (h n' c' hr) (fun p' c₂ hend => ?_) fun _ _ => False.elim
  rw [wp_bind, wp_read]
  split
  next ht =>
    rw [if_pos ht] at hend
    exact hend
  next ht =>
    rw [if_neg ht] at hend
    exact hend

/-- The error of the malformed statement is reported, whatever is read in its place. -/
theorem Malformed.errors_ne_nil (hB : Malformed B c₁) (h : Between s p B q) :
    s.parse.errors ≠ [] := by
  obtain ⟨P, Q, hP, hQ, hs⟩ := h.sentences
  have later (n : Nat) (c : Cursor) (hc : c.errors ≠ []) :
      (statements s.eof false n).wp c (fun _ c' => c'.errors ≠ []) fun _ _ => True :=
    wp_mono (wp_statements_later rfl false n c) (fun _ c' h h' => hc (h.clean h'))
      fun _ _ _ => trivial
  obtain ⟨p', c, hparse, hc⟩ := hB.parse_spec hP hs (R := fun _ c => c.errors ≠ []) fun n c hr => by
    refine wp_mono (wp_statements_later rfl true n c) (fun p' c₂ hlater => ?_) fun _ _ => id
    have hc₂ : c₂.errors ≠ [] := fun h => hr.errors (hlater.clean h)
    split
    · intro m
      exact wp_mono (keeps_behindBody rfl _)
        (fun _ c₃ hfrom n => later n c₃ fun h => hc₂ (hfrom.later.clean h))
        fun _ c₃ _ n => later n _ (List.cons_ne_nil _ _)
    · exact fun n => later n _ (List.cons_ne_nil _ _)
  rw [hparse]
  simpa using hc

theorem afterBody_of_values_nil (hstop : stop.value = .eof) (hc : c.values = []) :
    AfterBody stop (fun p' _ => p' = [.expr (.func () [] p)]) p c := by
  intro m
  have hend : (c.next stop).value = .eof := by
    rw [value_next hstop, hc]
    rfl
  have hstops : Stops 0 c.values := hc ▸ stops_of_endsReturn rfl
  rw [behindBody, wp_bind]
  refine wp_mono (accepts_continuation_of_stops hstop hstops
    (Q := fun e c' => e = .func () [] p ∧ c' = c) ⟨rfl, rfl⟩)
    (fun e c' ⟨he, hc'⟩ => ?_) fun _ _ => False.elim
  subst he hc'
  rw [wp_bind, wp_skipSemicolon, if_neg (by simp [hend]), wp_pure]
  intro n
  rcases n with _ | n
  · exact wp_exhausted
  rw [statements, wp_bind, wp_peek, if_pos (by rw [hend]; rfl), wp_pure]

/-- If recovery meets braces in pairs only, all that is lost is the malformed statement. -/
theorem Malformed.program_of_paired (hB : Malformed B c₁) (hpaired : nested 0 c₁.skipped = true)
    (h : Between s p B q) : s.parse.program = [.expr (.func () [] (p ++ q))] := by
  obtain ⟨P, Q, hP, hQ, hs⟩ := h.sentences
  obtain ⟨p', c, hparse, hp⟩ := hB.parse_spec hP hs
    (R := fun p' _ => p' = [.expr (.func () [] (p ++ q))]) fun n c hr => by
    have hstop : s.eof.value = .eof := rfl
    have hread := (proceeds_statements hstop true rfl hQ n c (hr.values hpaired)).accepts hstop rfl
    refine wp_mono hread (fun q' c' ⟨hq, hc'⟩ => ?_) fun _ _ => id
    subst hq
    rw [if_pos (value_next_of_cons hc'.values)]
    exact afterBody_of_values_nil rfl (by simp [hc'.values])
  rw [hparse, hp]

/-! ## Behind a brace without its pair -/

/-- Outside of all blocks, recovery may skip as far as the semicolon, but not further. -/
theorem done_recovered (hbrace : U.head? ≠ some (.mark .rightBrace)) (es : List ParseError)
    (h : Behind (.mark .semicolon :: U) (.mark .semicolon :: U) 0 c c) :
    Done (.mark .semicolon :: U) (.mark .semicolon :: U) 0 ⟨c.last, c.recovered false, es⟩
      ⟨c.last, c.recovered false, es⟩ := by
  obtain ⟨X, d, hX, -, hnested, -⟩ := h
  have hrow : (c.last :: c.rest).map (·.value) = X ++ .mark .semicolon :: U := hX
  by_cases hd : d = 0
  · subst hd
    have hskip := skipStatement_of_nested hrow hnested
    have hvalues : (dropStrayBrace (skipStatement 0 (c.last :: c.rest))).map (·.value) = U := by
      cases hr : skipStatement 0 (c.last :: c.rest) with
      | nil => simpa [hr, dropStrayBrace] using hskip
      | cons t ts =>
        rw [hr] at hskip
        have ht : t.value ≠ .mark .rightBrace := by
          rintro ht
          simp [← hskip, ht] at hbrace
        rwa [dropStrayBrace, if_neg ht]
    exact .inr ⟨rfl, by rw [← hvalues]; rfl, by rw [← hvalues]; rfl⟩
  · left
    obtain ⟨Y, hY, -, hY₀⟩ := @aligned_skipStatement _ _ _ 0 d _ _ hrow hrow hnested hd
    cases Y with
    | nil =>
      simp at hY₀
      exact absurd hY₀ hd
    | cons y Y =>
      obtain ⟨t, ts, hr, ht, hts⟩ := List.map_eq_cons_iff.1 hY
      have hvalues : (⟨c.last, c.recovered false, es⟩ : Cursor).values =
          (dropStrayBrace (t :: ts)).map (·.value) := by
        rw [← hr]
        rfl
      unfold Ahead
      rw [hvalues, dropStrayBrace]
      split
      next ht' =>
        rw [← ht, ht'] at hY₀
        simp only [nested_rightBrace, Bool.and_eq_true] at hY₀
        exact ⟨Y, d - 1, hts, hts, hY₀.2, Nat.zero_le _⟩
      next => exact ⟨y :: Y, d, by simp [ht, hts], by simp [ht, hts], hY₀, Nat.zero_le _⟩

theorem wp_statements_of_done (hbrace : U.head? ≠ some (.mark .rightBrace))
    (hU : ∀ n c, c.values = U → (statements stop false n).wp c (fun p _ => p = q) fun _ _ => True)
    (n : Nat) (c : Cursor) (hc : Done (.mark .semicolon :: U) (.mark .semicolon :: U) 0 c c) :
    (statements stop false n).wp c (fun p _ => ∃ p₁, p = p₁ ++ q) fun _ _ => True := by
  induction n generalizing c with
  | zero => exact wp_exhausted
  | succ n next =>
    have hS := barrier_semicolon U U 0
    rcases hc with hahead | ⟨-, hvalues, -⟩
    · obtain ⟨-, hne, hfacing⟩ := hahead.facing stop stop hS
      by_cases ht : (c.next stop).value = .mark .semicolon
      · rw [wp_statements_semicolon ht]
        rw [ht] at hfacing
        exact next _ (hfacing.taken stop stop).semicolon
      · have hend : (c.next stop).value.endsBlock false = false := by
          unfold Token.endsBlock
          split <;> simp_all
        rw [wp_statements_statement hend ht]
        refine wp_mono (Twin.wp_self (twin_statement hS n n) hahead) (fun t c' hdone => ?_)
          fun e c' hbehind => next _ (done_recovered hbrace _ hbehind)
        refine wp_mono (next c' hdone) (fun p' _ hp' => ?_) fun _ _ => id
        obtain ⟨p₁, hp⟩ := hp'
        exact ⟨t :: p₁, by rw [hp]; rfl⟩
    · exact wp_mono (hU _ c (List.cons.inj hvalues).2.symm) (fun p' _ hp => ⟨[], hp⟩) fun _ _ => id

/-- A brace that closes nothing is left out. -/
theorem wp_statements_rightBrace (hstop : stop.value = .eof) (hc : c.values = [.mark .rightBrace]) :
    (statements stop false n).wp c (fun p _ => p = []) fun _ _ => True := by
  have ht : (c.next stop).value = .mark .rightBrace := value_next_of_cons hc
  rcases n with _ | _ | _ | _ | n
  · exact wp_exhausted
  all_goals rw [wp_statements_statement (by simp [ht, Token.endsBlock]) (by simp [ht])]
  · exact wp_exhausted
  · simp only [statement, ht, expression, wp_bind, wp_peek, wp_exhausted]
  · simp only [statement, ht, expression, operand, wp_bind, wp_peek, wp_read, wp_exhausted]
  simp only [statement, ht, expression, operand, wp_bind, wp_peek, wp_read, wp_fail]
  have hrest : (c.advance stop).recovered false = [] := by
    obtain ⟨t, ts, hr, -, hts⟩ := List.map_eq_cons_iff.1 hc
    have htail : c.rest.tail = [] := by simpa [hr] using hts
    simp [recovered, htail, skipStatement, ht, dropStrayBrace]
  simp only [statements, wp_bind, wp_peek]
  rw [if_pos (by simp [hrest, Cursor.next, hstop, Token.endsBlock])]
  rfl

theorem head?_ne_rightBrace {Q : List Token} (hQ : Statements Q q) (hq : q ≠ []) :
    (Q ++ [Token.mark .rightBrace]).head? ≠ some (.mark .rightBrace) := by
  cases Q with
  | nil => exact absurd hQ.eq_nil hq
  | cons t ts =>
    intro h
    obtain rfl : t = .mark .rightBrace := by simpa using h
    rcases hQ.starts _ rfl with h | h
    · simp at h
    · cases h.endsReturn_eq_false

/-- If recovery meets a brace without its pair, what follows the malformed statement is read outside
of the function. -/
theorem Malformed.program_of_unpaired (hB : Malformed B c₁) (hpaired : nested 0 c₁.skipped ≠ true)
    (h : Between s p B q) (hq : q ≠ []) : ∃ p₁, s.parse.program = p₁ ++ q := by
  obtain ⟨P, Q, hP, hQ, hs⟩ := h.sentences
  have hbrace := head?_ne_rightBrace hQ hq
  have hU (n : Nat) (c : Cursor) (hc : c.values = Q ++ [.mark .rightBrace]) :
      (statements s.eof false n).wp c (fun p _ => p = q) fun _ _ => True := by
    refine proceeds_statements rfl false rfl hQ n c hc _ _ fun n' c' hr => ?_
    refine wp_mono (wp_statements_rightBrace rfl hr.values) (fun p' _ hp => ?_) fun _ _ => id
    rw [hp, List.append_nil]
  have next := wp_statements_of_done hbrace hU
  obtain ⟨p', c, hparse, p₁, hp⟩ := hB.parse_spec hP hs
    (R := fun p' _ => ∃ p₁, p' = p₁ ++ q) fun n c hr => by
    -- the block still ends, but inside of the malformed statement
    refine wp_mono (Twin.wp_self (@twin_statements _ _ s.eof s.eof (fun _ _ => False) 1
      Nat.one_ne_zero n n) (hr.ahead hpaired)) (fun p' c₂ hc₂ => ?_) fun _ _ => id
    have htaken := hc₂.taken s.eof s.eof
    have ht : (c₂.next s.eof).value = .mark .rightBrace := htaken.2.1
    rw [if_pos ht]
    intro m
    refine wp_mono (Twin.wp_self (twin_behindBody (barrier_semicolon _ _ 0)) htaken.rightBrace)
      (fun t c₃ hdone m => ?_) fun e c₃ hbehind m => next m _ (done_recovered hbrace _ hbehind)
    exact wp_mono (next m c₃ hdone) (fun p' _ ⟨p₁, hp⟩ => ⟨t :: p₁, by rw [hp]; rfl⟩)
      fun _ _ => id
  exact ⟨p₁, by rw [hparse, hp]⟩

/-! ## When nothing else is lost -/

def Stream.ofTokens (ts : List Token) : Stream :=
  ⟨ts.map fun t => ⟨t, Span.point 0⟩, 0⟩

@[simp] theorem Stream.values_ofTokens (ts : List Token) : (Stream.ofTokens ts).values = ts := by
  simp [Stream.ofTokens, Stream.values, Function.comp_def]

/-- A malformed statement in the body of a function is always reported. It is all that is lost,
whatever stands around it, exactly if recovery meets its braces in pairs. -/
theorem malformed_dropped_iff {B : List Token} {c : Cursor} (hB : Malformed B c) :
    (∀ s p q, Between s p B q → s.parse.errors ≠ []) ∧
      ((∀ s p q, Between s p B q → s.parse.program = [.expr (.func () [] (p ++ q))]) ↔
        nested 0 c.skipped = true) := by
  refine ⟨fun s p q => hB.errors_ne_nil, fun h => ?_, fun hpaired s p q =>
    hB.program_of_paired hpaired⟩
  by_cases hpaired : nested 0 c.skipped = true
  · exact hpaired
  -- one statement behind the malformed one is enough to tell
  have hone : parse "1" = ⟨[.expr (.int 1)], []⟩ := by decide +kernel
  let s := Stream.ofTokens (funcTokens (lexemes "".toList) B (lexemes "1".toList))
  have hs : Between s [] B [.expr (.int 1)] :=
    ⟨"", "1", by decide +kernel, hone, Stream.values_ofTokens _⟩
  obtain ⟨p₁, hp⟩ := hB.program_of_unpaired hpaired hs (by simp)
  rw [h s _ _ hs] at hp
  cases p₁ with
  | nil => simp at hp
  | cons t ts => simp at hp

/-- A block without parentheses in front of it is dropped, as its braces are both still to be
read. -/
theorem missing_parens_dropped :
    let B : List Token := [.keyword .if_, .identifier "x", .mark .leftBrace, .integer "1",
      .mark .rightBrace]
    (∃ c, Malformed B c) ∧
      ∀ s p q, Between s p B q → s.parse.program = [.expr (.func () [] (p ++ q))] := by
  intro B
  let s := Stream.ofTokens (B ++ [.mark .semicolon])
  let c : Cursor := ⟨⟨.keyword .if_, Span.point 0⟩, s.tokens.tail, []⟩
  have hB : Malformed B c :=
    ⟨by decide, by decide, s, 5, .expected (.mark .leftParen) ⟨.identifier "x", Span.point 0⟩,
      Stream.values_ofTokens _, rfl⟩
  exact ⟨⟨c, hB⟩, (malformed_dropped_iff hB).2.2 (by decide)⟩

/-- The closing brace of a function inside the malformed statement ends the body around it. -/
theorem inner_brace_ends_body :
    let B : List Token := [.mark .leftBracket, .keyword .func, .mark .leftParen, .mark .rightParen,
      .mark .leftBrace, .mark .rightBrace, .integer "5", .mark .rightBracket]
    let source := "func() \x7b 1; [func() \x7b\x7d 5]; 2 \x7d"
    (∃ c, Malformed B c) ∧
      Between (Stream.ofText source) [.expr (.int 1)] B [.expr (.int 2)] ∧
      (parse source).program =
        [.expr (.func () [] [.expr (.int 1)]), .expr (.int 5), .expr (.int 2)] := by
  intro B source
  let s := Stream.ofTokens (B ++ [.mark .semicolon])
  let c : Cursor := ⟨⟨.mark .rightBrace, Span.point 0⟩, s.tokens.drop 6, []⟩
  have hB : Malformed B c :=
    ⟨by decide, by decide, s, 9, .expected (.mark .rightBracket) ⟨.integer "5", Span.point 0⟩,
      Stream.values_ofTokens _, rfl⟩
  refine ⟨⟨c, hB⟩, ⟨"1", "2", ?_, ?_, ?_⟩, ?_⟩
  all_goals decide +kernel

end Scriptlet
