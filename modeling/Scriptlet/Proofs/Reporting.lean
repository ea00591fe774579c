import Scriptlet.Proofs.Joining

/-!
# What errors say and in which order

An error names a token of the text, and what it says of the token is true. Errors are reported in
the order of their tokens, although those inside a block are recorded before the statement around it
is done with, and although reading goes on from the token read last, which may stand in front of the
one that was found wrong. What carries the order is that no error is about a token behind the next
one (`Cursor.Orderly`). Recovery can break that by going back to a closing brace, but then the block
that is being read ends with this brace (`Cursor.Ready`).
-/

namespace Scriptlet

open Grammar Text

def ParseError.place (e : ParseError) : Nat :=
  e.found.span.start

/-- What an error says is true of the token that it names. -/
def ParseError.Justified : ParseError → Prop
  | expected (.mark m) t => t.value ≠ .mark m
  | expected .identifier t => ∀ name, t.value ≠ .identifier name
  | noOperand t => t.value.Legal ∧ ∀ ts e, ¬Binary 0 (t.value :: ts) e
  | illegal t => ∃ text, t.value = .illegal text
  | integerRange t => ∃ digits, t.value = .integer digits ∧
      9223372036854775807 < decimalValue digits.toList

theorem ParseError.Justified.of_not_starts {t : Located Token} (hlegal : t.value.Legal)
    (h : ¬Starts t.value) : (noOperand t).Justified := by
  refine ⟨hlegal, fun ts e he => ?_⟩
  obtain ⟨u, us, hu, hstarts⟩ := he.starts
  cases hu
  exact h hstarts

def Stream.row (s : Stream) : List (Located Token) :=
  s.tokens ++ [s.eof]

def Stream.Ascending (s : Stream) : Prop :=
  s.row.Pairwise fun t u => t.span.start ≤ u.span.start

theorem Stream.ascending_ofText (source : String) : (ofText source).Ascending := by
  have htiled : Tiled source 0 (ofText source).tokens :=
    tiled_tokensFrom 0 source.toList [] rfl rfl
  have hlt := htiled.start_lt_stop
  refine List.pairwise_append.2 ⟨?_, List.pairwise_singleton _ _, fun t ht u hu => ?_⟩
  · exact htiled.pairwise.imp_of_mem fun ht _ htu => Nat.le_trans (Nat.le_of_lt (hlt _ ht)) htu
  · have hu : u.span.start = source.utf8ByteSize := by
      rw [List.mem_singleton.1 hu, eof, ofText, Span.point, byteLength_toList]
    exact hu ▸ Nat.le_trans (Nat.le_of_lt (hlt t ht)) (htiled.stop_le t ht)

namespace Cursor

/-- The errors recorded so far are about tokens of the stream up to the next one, and were recorded
in their order, the newest in front. -/
structure Orderly (s : Stream) (c : Cursor) : Prop where
  rest : c.rest <:+ s.tokens
  found : ∀ e ∈ c.errors, e.found ∈ s.row ∧ e.Justified
  sorted : c.errors.Pairwise fun e e' => e'.place ≤ e.place
  upToNext : ∀ e ∈ c.errors, e.place ≤ (c.next s.eof).span.start

def record (e : ParseError) (c : Cursor) : Cursor :=
  { c with errors := e :: c.errors }

structure Holding (s : Stream) (t : Located Token) (c : Cursor) : Prop where
  orderly : c.Orderly s
  mem : t ∈ s.row
  upTo : ∀ e ∈ c.errors, e.place ≤ t.span.start
  le_next : t.span.start ≤ (c.next s.eof).span.start

/-- Where statements are read from. In a block errors may be about the token behind the brace that
closes it. -/
def Ready (s : Stream) (inBlock : Bool) (c : Cursor) : Prop :=
  c.Orderly s ∨
    inBlock = true ∧ (c.next s.eof).value = .mark .rightBrace ∧ (c.advance s.eof).Orderly s

variable {s : Stream} {c : Cursor} {e : ParseError} {t : Located Token}

theorem next_mem_row (h : c.rest <:+ s.tokens) : c.next s.eof ∈ s.row := by
  cases hr : c.rest with
  | nil => simp [next_of_nil hr, Stream.row]
  | cons t ts =>
    rw [next_of_cons hr]
    exact List.mem_append_left _ (h.subset (by simp [hr]))

/-- Nothing further on begins before the next token. -/
theorem start_next_le (hs : s.Ascending) (h : c.rest <:+ s.tokens) {c' : Cursor}
    (hrest : c'.rest <:+ c.rest) :
    (c.next s.eof).span.start ≤ (c'.next s.eof).span.start := by
  obtain ⟨pre, hpre⟩ := hrest
  cases pre with
  | nil =>
    have hnext : c'.next s.eof = c.next s.eof := by rw [next, next, ← hpre, List.nil_append]
    rw [hnext]
  | cons t pre =>
    have hrow : (t :: (pre ++ (c'.rest ++ [s.eof]))) <:+ s.row := by
      obtain ⟨before, hbefore⟩ := h
      exact ⟨before, by rw [Stream.row, ← hbefore, ← hpre]; simp⟩
    have hmem : c'.next s.eof ∈ c'.rest ++ [s.eof] := by
      cases hr : c'.rest with
      | nil => simp [next_of_nil hr]
      | cons u us => simp [next_of_cons hr]
    rw [next_of_cons hpre.symm]
    exact List.rel_of_pairwise_cons (hs.sublist hrow.sublist) (List.mem_append_right _ hmem)

namespace Orderly

/-- Tokens may be skipped. -/
theorem behind (hs : s.Ascending) (h : c.Orderly s) {rest : List (Located Token)}
    (hrest : rest <:+ c.rest) (last : Located Token) :
    (⟨last, rest, c.errors⟩ : Cursor).Orderly s where
  rest := hrest.trans h.rest
  found := h.found
  sorted := h.sorted
  upToNext e he := Nat.le_trans (h.upToNext e he) (start_next_le hs h.rest hrest)

theorem advance (hs : s.Ascending) (h : c.Orderly s) : (c.advance s.eof).Orderly s :=
  h.behind hs (List.tail_suffix _) _

theorem holding (hs : s.Ascending) (h : c.Orderly s) :
    (c.advance s.eof).Holding s (c.next s.eof) where
  orderly := h.advance hs
  mem := next_mem_row h.rest
  upTo := h.upToNext
  le_next := start_next_le hs h.rest (List.tail_suffix _)

end Orderly

theorem Holding.record (h : c.Holding s t) (hfound : e.found = t) (he : e.Justified) :
    (c.record e).Orderly s where
  rest := h.orderly.rest
  found := List.forall_mem_cons.2 ⟨⟨hfound ▸ h.mem, he⟩, h.orderly.found⟩
  sorted := by
    refine List.pairwise_cons.2 ⟨?_, h.orderly.sorted⟩
    rw [ParseError.place, hfound]
    exact h.upTo
  upToNext := by
    refine List.forall_mem_cons.2 ⟨?_, h.orderly.upToNext⟩
    rw [ParseError.place, hfound]
    exact h.le_next

/-- An error about the next token. -/
theorem Orderly.record (h : c.Orderly s) (hfound : e.found = c.next s.eof) (he : e.Justified) :
    (c.record e).Orderly s :=
  Holding.record ⟨h, next_mem_row h.rest, h.upToNext, Nat.le_refl _⟩ hfound he

theorem Orderly.ready (h : c.Orderly s) (inBlock : Bool) : c.Ready s inBlock :=
  .inl h

/-- Recovery goes back by one token at most, and only if that is a closing brace. -/
theorem Orderly.ready_recovered (hs : s.Ascending) (h : (c.record e).Orderly s) (inBlock : Bool) :
    (⟨c.last, c.recovered inBlock, e :: c.errors⟩ : Cursor).Ready s inBlock := by
  have hstay : (⟨c.last, c.rest, e :: c.errors⟩ : Cursor).Orderly s := h
  rcases Parse.recovered_cases inBlock c with hrest | ⟨hblock, hbrace, hrest⟩
  · exact .inl (h.behind hs hrest c.last)
  · refine .inr ⟨hblock, ?_, ?_⟩
    · simpa [hrest, next] using hbrace
    · simpa [hrest, Cursor.advance, next] using hstay

end Cursor

/-! ## The readers, one by one -/

namespace Parse

open Cursor

variable {α β : Type} {s : Stream}

/-- Where errors are in order a reader leaves them so, also if it fails and its own error is
recorded. -/
def Reports (s : Stream) (p : Parse α) : Prop :=
  ∀ c : Cursor, c.Orderly s → p.wp c (fun _ c' => c'.Orderly s) fun e c' => (c'.record e).Orderly s

theorem reports_exhausted : Reports s (exhausted : Parse α) :=
  fun _ _ => wp_exhausted

theorem reports_pure (a : α) : Reports s (pure a) :=
  fun _ h => h

theorem Reports.bind {p : Parse α} {next : α → Parse β} (hp : Reports s p)
    (hnext : ∀ a, Reports s (next a)) : Reports s (p >>= next) := by
  intro c hc
  rw [wp_bind]
  exact wp_mono (hp c hc) (fun a c₁ hc₁ => hnext a c₁ hc₁) fun _ _ => id

theorem Reports.peek_bind {next : Located Token → Parse α} (h : ∀ t, Reports s (next t)) :
    Reports s (peek s.eof >>= next) :=
  fun c hc => (wp_bind _ _).2 (h _ c hc)

theorem Reports.ite {P : Prop} [Decidable P] {p q : Parse α} (hp : Reports s p)
    (hq : Reports s q) : Reports s (if P then p else q) := by
  split
  · exact hp
  · exact hq

section

variable (hs : s.Ascending)
include hs

theorem reports_skip : Reports s (skip s.eof) :=
  fun _ hc => hc.advance hs

theorem reports_expect (m : Mark) : Reports s (expect s.eof m) := by
  intro c hc
  rw [wp_expect]
  split
  next => exact hc.advance hs
  next hne => exact hc.record rfl hne

theorem reports_expectIdentifier : Reports s (expectIdentifier s.eof) := by
  intro c hc
  rw [wp_expectIdentifier]
  split
  next => exact hc.advance hs
  next hne => exact hc.record rfl hne

theorem reports_skipSemicolon : Reports s (skipSemicolon s.eof) :=
  .peek_bind fun _ => .ite (reports_skip hs) (reports_pure _)

theorem reports_moreParameters (n : Nat) : Reports s (moreParameters s.eof n) := by
  induction n with
  | zero => exact reports_exhausted
  | succ n ih =>
    refine .peek_bind fun t => .ite ?_ ?_
    · exact (reports_skip hs).bind fun _ => (reports_expectIdentifier hs).bind fun _ =>
        ih.bind fun _ => reports_pure _
    · exact (reports_expect hs _).bind fun _ => reports_pure _

theorem reports_parameters (n : Nat) : Reports s (parameters s.eof n) :=
  .peek_bind fun _ => .ite
    ((reports_skip hs).bind fun _ => reports_pure _)
    ((reports_expectIdentifier hs).bind fun _ => (reports_moreParameters hs n).bind fun _ =>
      reports_pure _)

end

mutual

theorem ready_statements (hs : s.Ascending) (inBlock : Bool) : ∀ n (c : Cursor), c.Ready s inBlock →
    (statements s.eof inBlock n).wp c (fun _ c' => c'.Ready s inBlock) fun _ _ => False
  | 0, _, _ => wp_exhausted
  | n + 1, c, hc => by
    have next := ready_statements hs inBlock n
    simp only [statements, wp_bind, wp_peek]
    split
    next => exact hc
    next hend =>
      -- no block goes on at its closing brace
      have hc : c.Orderly s := hc.resolve_right fun ⟨hblock, hbrace, _⟩ => hend (by
        rw [hbrace, hblock]
        rfl)
      split
      next => exact next _ ((hc.advance hs).ready _)
      next =>
        rw [wp_bind, wp_attempt]
        refine wp_mono (reports_statement hs n c hc) (fun st c₁ hc₁ => ?_) fun e c₁ hc₁ => ?_
        · rw [wp_bind]
          exact next c₁ (hc₁.ready _)
        · rw [wp_bind, wp_recover]
          exact next _ (hc₁.ready_recovered hs inBlock)

theorem reports_statement (hs : s.Ascending) : ∀ n, Reports s (statement s.eof n)
  | 0 => reports_exhausted
  | n + 1 => by
    have expr := reports_expression hs 0 n
    have tail (f : Expr Unit → Stmt Unit) (value : Expr Unit) :
        Reports s (do skipSemicolon s.eof; return f value) :=
      (reports_skipSemicolon hs).bind fun _ => reports_pure _
    refine .peek_bind fun t => ?_
    split
    · exact (reports_skip hs).bind fun _ => (reports_expectIdentifier hs).bind fun name =>
        (reports_expect hs _).bind fun _ => expr.bind (tail (.var name))
    · exact (reports_skip hs).bind fun _ => .peek_bind fun _ => .ite
        ((reports_skipSemicolon hs).bind fun _ => reports_pure _) (expr.bind (tail .ret))
    · exact expr.bind (tail .expr)

theorem reports_block (hs : s.Ascending) : ∀ n, Reports s (block s.eof n)
  | 0 => reports_exhausted
  | n + 1 => by
    intro c hc
    simp only [block, wp_bind]
    refine wp_mono (ready_statements hs true n c (hc.ready true)) (fun body c₁ hc₁ => ?_)
      fun _ _ => False.elim
    rw [wp_read]
    split
    next hbrace => exact hc₁.elim (Orderly.advance hs) fun ⟨_, _, h⟩ => h
    next hbrace =>
      have hc₁ : c₁.Orderly s := hc₁.resolve_right fun ⟨_, h, _⟩ => hbrace h
      exact (hc₁.holding hs).record rfl hbrace

theorem reports_expression (hs : s.Ascending) (level : Nat) :
    ∀ n, Reports s (expression s.eof level n)
  | 0 => reports_exhausted
  | n + 1 => by
    intro c hc
    simp only [expression, wp_bind, wp_read]
    exact wp_mono (reports_operand hs _ n _ (hc.holding hs))
      (fun left c₁ hc₁ => reports_continuation hs level left n c₁ hc₁) fun _ _ => id

theorem reports_operand (hs : s.Ascending) (t : Located Token) : ∀ n (c : Cursor), c.Holding s t →
    (operand s.eof t n).wp c (fun _ c' => c'.Orderly s) fun e c' => (c'.record e).Orderly s
  | 0, _, _ => wp_exhausted
  | n + 1, c, hc => by
    have expr (level : Nat) := reports_expression hs level n
    have body := reports_block hs n
    have mark (m : Mark) := reports_expect hs m
    have here := hc.orderly
    unfold operand
    split
    next => exact here
    next digits hdigits =>
      split
      next => exact here
      next hrange =>
        have hlarge := integerLiteral?_eq_none_iff.1 hrange
        exact hc.record rfl ⟨digits, hdigits, hlarge⟩
    next => exact here
    next => exact here
    next => exact here
    next => exact here
    next => exact ((expr _).bind fun _ => reports_pure _) c here
    next => exact ((expr _).bind fun _ => reports_pure _) c here
    next => exact ((expr 0).bind fun _ => (mark _).bind fun _ => reports_pure _) c here
    next => exact ((reports_items hs _ n).bind fun _ => reports_pure _) c here
    next =>
      exact ((mark _).bind fun _ => (expr 0).bind fun _ => (mark _).bind fun _ =>
        (mark _).bind fun _ => body.bind fun _ => .peek_bind fun _ => .ite
          ((reports_skip hs).bind fun _ => (mark _).bind fun _ => body.bind fun _ =>
            reports_pure _)
          (reports_pure _)) c here
    next =>
      exact ((mark _).bind fun _ => (reports_parameters hs n).bind fun _ => (mark _).bind fun _ =>
        body.bind fun _ => reports_pure _) c here
    next bad hbad => exact hc.record rfl ⟨bad, hbad⟩
    next =>
      refine hc.record rfl (.of_not_starts (fun text htext => ?_) fun hstarts => ?_)
      · simp_all
      · generalize t.value = v at *
        cases hstarts with
        | prefixOp op => cases op <;> simp_all [PrefixOp.token]
        | _ => simp_all

theorem reports_continuation (hs : s.Ascending) (level : Nat) (left : Expr Unit) :
    ∀ n, Reports s (continuation s.eof level left n)
  | 0 => reports_exhausted
  | n + 1 => by
    refine .peek_bind fun t => ?_
    split
    · exact (reports_skip hs).bind fun _ => (reports_items hs _ n).bind fun _ =>
        reports_continuation hs level _ n
    · exact (reports_skip hs).bind fun _ => (reports_expression hs 0 n).bind fun _ =>
        (reports_expect hs _).bind fun _ => reports_continuation hs level _ n
    · split
      · exact .ite ((reports_skip hs).bind fun _ => (reports_expression hs _ n).bind fun _ =>
          reports_continuation hs level _ n) (reports_pure _)
      · exact reports_pure _

theorem reports_items (hs : s.Ascending) (close : Mark) : ∀ n, Reports s (items s.eof close n)
  | 0 => reports_exhausted
  | n + 1 => .peek_bind fun _ => .ite
      ((reports_skip hs).bind fun _ => reports_pure _)
      ((reports_expression hs 0 n).bind fun _ => (reports_moreItems hs close n).bind fun _ =>
        reports_pure _)

theorem reports_moreItems (hs : s.Ascending) (close : Mark) :
    ∀ n, Reports s (moreItems s.eof close n)
  | 0 => reports_exhausted
  | n + 1 => .peek_bind fun _ => .ite
      ((reports_skip hs).bind fun _ => (reports_expression hs 0 n).bind fun _ =>
        (reports_moreItems hs close n).bind fun _ => reports_pure _)
      ((reports_expect hs _).bind fun _ => reports_pure _)

end

end Parse

theorem Stream.reports_parse (s : Stream) (hs : s.Ascending) :
    (∀ e ∈ s.parse.errors, e.found ∈ s.row ∧ e.Justified) ∧
      s.parse.errors.Pairwise fun e e' => e.place ≤ e'.place := by
  have hstart : (⟨s.eof, s.tokens, []⟩ : Cursor).Orderly s :=
    ⟨List.suffix_refl _, by simp, .nil, by simp⟩
  obtain ⟨p, c, hparse, hc⟩ := s.parse_spec (Parse.wp_mono
    (Parse.ready_statements hs false s.fuel _ (hstart.ready false))
    (fun _ _ => id) fun _ _ => False.elim)
  have hc : c.Orderly s := hc.resolve_right (by simp)
  simpa [hparse, List.pairwise_reverse] using And.intro hc.found hc.sorted

/-- Every error names a token of the text, or its end, of which it says something true. The errors
stand in the order of these tokens. A text with an illegal token has an error. -/
theorem parse_errors_justified (source : String) :
    (∀ e ∈ (parse source).errors,
      (e.found ∈ (Stream.ofText source).tokens ∨ e.found = (Stream.ofText source).eof) ∧
        e.Justified) ∧
      (parse source).errors.Pairwise (fun e e' => e.found.span.start ≤ e'.found.span.start) ∧
      ((∃ t ∈ (Stream.ofText source).tokens, ∃ text, t.value = .illegal text) →
        (parse source).errors ≠ []) := by
  have ⟨hfound, hsorted⟩ := (Stream.ofText source).reports_parse (Stream.ascending_ofText source)
  refine ⟨fun e he => ?_, hsorted, fun ⟨t, ht, text, hillegal⟩ hnone => ?_⟩
  · have ⟨hmem, hjustified⟩ := hfound e he
    exact ⟨by simpa [Stream.row] using hmem, hjustified⟩
  · have hlegal := (statements_of_parse (congrArg (Parsed.mk _) hnone)).legal
    exact hlegal t.value (List.mem_map_of_mem ht) text hillegal

end Scriptlet
