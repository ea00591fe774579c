import Scriptlet.Proofs.Reading

/-!
# Readers go forward and come to an end

A reader never goes back in the row and never forgets an error. `Cursor.From` says more about where
it stops: the token read last and those behind it are an end piece of the row that it started on,
and of the part still to be read if at least one token was read (`Cursor.Past`). Recovery starts at
the token read last, so it is the stronger fact that makes each attempt at a statement start further
on. From it follows that `Stream.fuel` is enough (`Parse.within_statements`), which is why the fuel
can be forgotten everywhere else (`Stream.parse_spec`).
-/

namespace Scriptlet

namespace Cursor

/-- `c'` is a cursor further on in the row of `c`, with all its errors. -/
structure Later (c c' : Cursor) : Prop where
  rest : c'.rest <:+ c.rest
  errors : c.errors <:+ c'.errors

structure From (stop : Located Token) (c c' : Cursor) : Prop where
  reached : c'.last :: c'.rest <:+ c.last :: c.rest ∨ c'.last = stop ∧ c'.rest = []
  errors : c.errors <:+ c'.errors

structure Past (stop : Located Token) (c c' : Cursor) : Prop where
  reached : c'.last :: c'.rest <:+ c.rest ∨ c'.last = stop ∧ c'.rest = []
  errors : c.errors <:+ c'.errors

variable {stop : Located Token} {c c₁ c₂ : Cursor}

theorem Later.refl (c : Cursor) : Later c c :=
  ⟨List.suffix_refl _, List.suffix_refl _⟩

theorem Later.trans (h : Later c c₁) (h' : Later c₁ c₂) : Later c c₂ :=
  ⟨h'.rest.trans h.rest, h.errors.trans h'.errors⟩

/-- Errors that were not recorded in the end were not recorded on the way. -/
theorem Later.clean (h : Later c c₁) (hc : c₁.errors = []) : c.errors = [] :=
  List.suffix_nil.1 (hc ▸ h.errors)

theorem Later.length_le (h : Later c c₁) : c₁.rest.length ≤ c.rest.length :=
  h.rest.length_le

theorem From.refl (c : Cursor) : From stop c c :=
  ⟨.inl (List.suffix_refl _), List.suffix_refl _⟩

theorem Past.from (h : Past stop c c₁) : From stop c c₁ :=
  ⟨h.reached.imp_left fun h => h.trans (List.suffix_cons _ _), h.errors⟩

theorem From.later (h : From stop c c₁) : Later c c₁ where
  rest := by
    rcases h.reached with h | ⟨-, h⟩
    · rcases List.suffix_cons_iff.1 h with h | h
      · exact (List.cons.inj h).2 ▸ List.suffix_refl _
      · exact (List.suffix_cons _ _).trans h
    · exact h ▸ List.nil_suffix
  errors := h.errors

theorem Past.later (h : Past stop c c₁) : Later c c₁ :=
  h.from.later

theorem From.stays (h : From stop c c₁) (hl : c.last = stop) (hr : c.rest = []) :
    c₁.last = stop ∧ c₁.rest = [] := by
  rcases h.reached with h | h
  · rcases List.suffix_cons_iff.1 h with h | h
    · obtain ⟨h₁, h₂⟩ := List.cons.inj h
      exact ⟨h₁.trans hl, h₂.trans hr⟩
    · simp [hr] at h
  · exact h

theorem From.trans (h : From stop c c₁) (h' : From stop c₁ c₂) : From stop c c₂ where
  reached := by
    rcases h.reached with hs | ⟨hl, hr⟩
    · exact h'.reached.imp_left fun h => h.trans hs
    · exact .inr (h'.stays hl hr)
  errors := h.errors.trans h'.errors

theorem Past.trans (h : Past stop c c₁) (h' : From stop c₁ c₂) : Past stop c c₂ where
  reached := by
    rcases h.reached with hs | ⟨hl, hr⟩
    · exact h'.reached.imp_left fun h => h.trans hs
    · exact .inr (h'.stays hl hr)
  errors := h.errors.trans h'.errors

/-- Reading a token goes past it, also behind a stretch that may have ended in recovery. -/
theorem Later.past_advance (h : Later c c₁) : Past stop c (c₁.advance stop) where
  reached := by
    cases hr : c₁.rest with
    | nil => exact .inr (by simp [advance_of_nil hr])
    | cons t ts => exact .inl (by simpa [advance_of_cons hr, ← hr] using h.rest)
  errors := h.errors

theorem past_advance (c : Cursor) : Past stop c (c.advance stop) :=
  (Later.refl c).past_advance

theorem Past.length_lt (h : Past stop c c₁) (hc : c.rest ≠ []) :
    c₁.rest.length < c.rest.length := by
  rcases h.reached with h | ⟨-, h⟩
  · exact h.length_le
  · rw [h]
    exact List.length_pos_iff.2 hc

end Cursor

namespace Parse

open Cursor

variable {α β : Type} {stop : Located Token}

def Keeps (R : Cursor → Cursor → Prop) (p : Parse α) : Prop :=
  ∀ c, p.wp c (fun _ => R c) (fun _ => R c)

theorem Keeps.mono {R R' : Cursor → Cursor → Prop} {p : Parse α} (h : Keeps R p)
    (hR : ∀ c c', R c c' → R' c c') : Keeps R' p :=
  fun c => wp_mono (h c) (fun _ => hR c) (fun _ => hR c)

theorem Keeps.from {p : Parse α} (h : Keeps (Past stop) p) : Keeps (From stop) p :=
  h.mono fun _ _ => Past.from

theorem Keeps.bind {p : Parse α} {next : α → Parse β} (hp : Keeps (From stop) p)
    (hnext : ∀ a, Keeps (From stop) (next a)) : Keeps (From stop) (p >>= next) := by
  intro c
  rw [wp_bind]
  refine wp_mono (hp c) (fun a c₁ h => ?_) (fun _ _ h => h)
  exact wp_mono (hnext a c₁) (fun _ _ => h.trans) (fun _ _ => h.trans)

theorem Keeps.past_bind {p : Parse α} {next : α → Parse β} (hp : Keeps (Past stop) p)
    (hnext : ∀ a, Keeps (From stop) (next a)) : Keeps (Past stop) (p >>= next) := by
  intro c
  rw [wp_bind]
  refine wp_mono (hp c) (fun a c₁ h => ?_) (fun _ _ h => h)
  exact wp_mono (hnext a c₁) (fun _ _ => h.trans) (fun _ _ => h.trans)

theorem Keeps.peek_bind {R : Cursor → Cursor → Prop} {next : Located Token → Parse α}
    (hnext : ∀ t, Keeps R (next t)) : Keeps R (peek stop >>= next) :=
  fun c => (wp_bind _ _).2 (hnext _ c)

theorem Keeps.ite {R : Cursor → Cursor → Prop} {P : Prop} [Decidable P] {p q : Parse α}
    (hp : Keeps R p) (hq : Keeps R q) : Keeps R (if P then p else q) := by
  split
  · exact hp
  · exact hq

theorem keeps_exhausted {R : Cursor → Cursor → Prop} : Keeps R (exhausted : Parse α) :=
  fun _ => wp_exhausted

theorem keeps_pure (a : α) : Keeps (From stop) (pure a) :=
  fun c => From.refl c

theorem keeps_fail (e : ParseError) : Keeps (From stop) (fail e : Parse α) :=
  fun c => From.refl c

theorem keeps_read : Keeps (Past stop) (read stop) :=
  fun c => past_advance c

theorem keeps_skip : Keeps (Past stop) (skip stop) :=
  fun c => past_advance c

theorem keeps_expect (m : Mark) : Keeps (From stop) (expect stop m) :=
  .peek_bind fun _ => .ite keeps_skip.from (keeps_fail _)

theorem keeps_skipSemicolon : Keeps (From stop) (skipSemicolon stop) :=
  .peek_bind fun _ => .ite keeps_skip.from (keeps_pure _)

theorem keeps_expectIdentifier : Keeps (From stop) (expectIdentifier stop) := by
  refine .peek_bind fun t => ?_
  split
  · exact keeps_skip.from.bind fun _ => keeps_pure _
  · exact keeps_fail _

section

variable {t : Located Token} {ts : List (Located Token)} {depth : Nat}

theorem skipStatement_leftBrace (h : t.value = .mark .leftBrace) :
    skipStatement depth (t :: ts) = skipStatement (depth + 1) ts := by
  simp [skipStatement, h]

theorem skipStatement_rightBrace (h : t.value = .mark .rightBrace) :
    skipStatement depth (t :: ts) =
      if depth = 0 then t :: ts else skipStatement (depth - 1) ts := by
  simp [skipStatement, h]

theorem skipStatement_semicolon (h : t.value = .mark .semicolon) :
    skipStatement depth (t :: ts) = if depth = 0 then ts else skipStatement depth ts := by
  simp [skipStatement, h]

theorem skipStatement_other (hl : t.value ≠ .mark .leftBrace) (hr : t.value ≠ .mark .rightBrace)
    (hs : t.value ≠ .mark .semicolon) :
    skipStatement depth (t :: ts) = skipStatement depth ts := by
  simp [skipStatement]

end

theorem skipStatement_suffix (depth : Nat) (tokens : List (Located Token)) :
    skipStatement depth tokens <:+ tokens := by
  fun_induction skipStatement depth tokens with
  | case1 => exact List.suffix_refl _
  | case4 => exact List.suffix_refl _
  | case2 => exact List.suffix_cons _ _
  | _ => exact List.IsSuffix.trans ‹_› (List.suffix_cons _ _)

theorem dropStrayBrace_suffix (tokens : List (Located Token)) :
    dropStrayBrace tokens <:+ tokens := by
  fun_cases dropStrayBrace tokens with
  | case1 => exact List.suffix_refl _
  | case2 => exact List.suffix_cons _ _
  | case3 => exact List.suffix_refl _

/-- What recovery leaves of a statement that started at `c` and failed at `c'` is an end piece of
what there was. -/
theorem recovered_suffix (hstop : stop.value = .eof) (inBlock : Bool) {c c' : Cursor}
    (h : Past stop c c') : c'.recovered inBlock <:+ c.rest := by
  have hs : skipStatement 0 (c'.last :: c'.rest) <:+ c.rest := by
    rcases h.reached with h | ⟨hl, hr⟩
    · exact (skipStatement_suffix _ _).trans h
    · simp [hl, hr, skipStatement, hstop]
  unfold recovered
  split
  · exact hs
  · exact (dropStrayBrace_suffix _).trans hs

theorem length_skipStatement_cons_le {t : Located Token} (ts : List (Located Token))
    (h : t.value ≠ .mark .rightBrace) : (skipStatement 0 (t :: ts)).length ≤ ts.length := by
  unfold skipStatement
  split
  · simp
  · exact absurd ‹_› h
  · exact length_skipStatement_le _ _
  · exact length_skipStatement_le _ _

/-- Recovery goes on behind the token read last, or in a block it gives this token back, which then
is a closing brace. -/
theorem recovered_cases (inBlock : Bool) (c : Cursor) :
    c.recovered inBlock <:+ c.rest ∨
      inBlock = true ∧ c.last.value = .mark .rightBrace ∧ c.recovered inBlock = c.last :: c.rest := by
  unfold recovered
  by_cases hv : c.last.value = .mark .rightBrace
  · have hskip : skipStatement 0 (c.last :: c.rest) = c.last :: c.rest := by
      rw [skipStatement_rightBrace hv, if_pos rfl]
    rw [hskip]
    cases inBlock with
    | true => exact .inr ⟨rfl, hv, rfl⟩
    | false => exact .inl (by simp [dropStrayBrace, hv])
  · have hskip : skipStatement 0 (c.last :: c.rest) <:+ c.rest :=
      List.suffix_of_suffix_length_le (skipStatement_suffix _ _) (List.suffix_cons _ _)
        (length_skipStatement_cons_le _ hv)
    cases inBlock with
    | true => exact .inl hskip
    | false => exact .inl ((dropStrayBrace_suffix _).trans hskip)

/-- Recovery leaves less than there was when the statement started. A brace that was read last is
left where it is, but no statement of a block starts with one. -/
theorem length_recovered_lt (hstop : stop.value = .eof) {inBlock : Bool} {c c' : Cursor}
    (h : Past stop c c') (hc : c.rest ≠ [])
    (hb : inBlock = true → (c.next stop).value ≠ .mark .rightBrace) :
    (c'.recovered inBlock).length < c.rest.length := by
  have hpos := List.length_pos_iff.2 hc
  rcases h.reached with hs | ⟨hl, hr⟩
  · by_cases hv : c'.last.value = .mark .rightBrace
    · simp only [recovered, skipStatement_rightBrace hv, if_true]
      cases inBlock with
      | false =>
        have hle := hs.length_le
        rw [List.length_cons] at hle
        simp only [Bool.false_eq_true, if_false, dropStrayBrace, if_pos hv]
        omega
      | true =>
        -- the brace is not the first token of the statement, so it was read after another
        obtain ⟨t, ts, hts⟩ := List.exists_cons_of_ne_nil hc
        have hb := hb rfl
        rw [next_of_cons hts] at hb
        rw [hts, List.suffix_cons_iff] at hs
        rcases hs with hs | hs
        · exact absurd ((List.cons.inj hs).1 ▸ hv) hb
        · simpa [hts] using Nat.lt_succ_of_le hs.length_le
    · have hle := length_skipStatement_cons_le c'.rest hv
      have hlt := hs.length_le
      rw [List.length_cons] at hlt
      have hdrop := (dropStrayBrace_suffix (skipStatement 0 (c'.last :: c'.rest))).length_le
      unfold recovered
      cases inBlock <;> simp <;> omega
  · have hnil : c'.recovered inBlock = [] := by
      simp [recovered, hl, hr, skipStatement, hstop, dropStrayBrace]
    simpa [hnil] using hpos

/-! ## Every reader goes forward -/

theorem keeps_moreParameters (n : Nat) : Keeps (From stop) (moreParameters stop n) := by
  induction n with
  | zero => exact keeps_exhausted
  | succ n ih =>
    refine .peek_bind fun t => .ite ?_ ?_
    · exact keeps_skip.from.bind fun _ => keeps_expectIdentifier.bind fun _ => ih.bind fun _ =>
        keeps_pure _
    · exact (keeps_expect _).bind fun _ => keeps_pure _

theorem keeps_parameters (n : Nat) : Keeps (From stop) (parameters stop n) :=
  .peek_bind fun _ => .ite
    (keeps_skip.from.bind fun _ => keeps_pure _)
    (keeps_expectIdentifier.bind fun _ => (keeps_moreParameters n).bind fun _ => keeps_pure _)

mutual

/-- Statements are never refused as a whole. -/
theorem wp_statements_later (hstop : stop.value = .eof) (inBlock : Bool) :
    ∀ n c, (statements stop inBlock n).wp c (fun _ => Later c) (fun _ _ => False)
  | 0, _ => wp_exhausted
  | n + 1, c => by
    have next (a : Cursor) (h : Later c a) :
        (statements stop inBlock n).wp a (fun _ => Later c) (fun _ _ => False) :=
      wp_mono (wp_statements_later hstop inBlock n a) (fun _ _ => h.trans) (fun _ _ => id)
    simp only [statements, wp_bind, wp_peek]
    split
    · exact Later.refl c
    · split
      · exact next _ (past_advance c).later
      · rw [wp_bind, wp_attempt]
        refine wp_mono (keeps_statement hstop n c) (fun s c₁ h => ?_) (fun e c₁ h => ?_)
        · rw [wp_bind]
          exact next c₁ h.later
        · rw [wp_bind, wp_recover]
          exact next _ ⟨recovered_suffix hstop inBlock h, h.errors.trans (List.suffix_cons _ _)⟩

theorem keeps_statement (hstop : stop.value = .eof) : ∀ n, Keeps (Past stop) (statement stop n)
  | 0 => keeps_exhausted
  | n + 1 => by
    have tail (f : Expr Unit → Stmt Unit) (value : Expr Unit) :
        Keeps (From stop) (do skipSemicolon stop; return f value) :=
      keeps_skipSemicolon.bind fun _ => keeps_pure _
    refine .peek_bind fun t => ?_
    split
    · exact keeps_skip.past_bind fun _ => keeps_expectIdentifier.bind fun name =>
        (keeps_expect _).bind fun _ => (keeps_expression hstop 0 n).from.bind (tail (.var name))
    · exact keeps_skip.past_bind fun _ => .peek_bind fun _ => .ite
        (keeps_skipSemicolon.bind fun _ => keeps_pure _)
        ((keeps_expression hstop 0 n).from.bind (tail .ret))
    · exact (keeps_expression hstop 0 n).past_bind (tail .expr)

theorem keeps_block (hstop : stop.value = .eof) : ∀ n, Keeps (Past stop) (block stop n)
  | 0 => keeps_exhausted
  | n + 1 => by
    intro c
    simp only [block, wp_bind]
    refine wp_mono (wp_statements_later hstop true n c) (fun body c₁ h => ?_)
      (fun _ _ => False.elim)
    rw [wp_read]
    split
    · exact h.past_advance
    · exact h.past_advance

theorem keeps_expression (hstop : stop.value = .eof) (level : Nat) :
    ∀ n, Keeps (Past stop) (expression stop level n)
  | 0 => keeps_exhausted
  | n + 1 => keeps_read.past_bind fun t =>
      (keeps_operand hstop t n).bind fun left => keeps_continuation hstop level left n

theorem keeps_operand (hstop : stop.value = .eof) (t : Located Token) :
    ∀ n, Keeps (From stop) (operand stop t n)
  | 0 => keeps_exhausted
  | n + 1 => by
    have expr (level : Nat) := (keeps_expression hstop level n).from
    have body := (keeps_block hstop n).from
    unfold operand
    split
    · exact keeps_pure _
    · split
      · exact keeps_pure _
      · exact keeps_fail _
    · exact keeps_pure _
    · exact keeps_pure _
    · exact keeps_pure _
    · exact keeps_pure _
    · exact (expr _).bind fun _ => keeps_pure _
    · exact (expr _).bind fun _ => keeps_pure _
    · exact (expr 0).bind fun _ => (keeps_expect _).bind fun _ => keeps_pure _
    · exact (keeps_items hstop _ n).bind fun _ => keeps_pure _
    · exact (keeps_expect _).bind fun _ => (expr 0).bind fun _ => (keeps_expect _).bind fun _ =>
        (keeps_expect _).bind fun _ => body.bind fun _ => .peek_bind fun _ => .ite
          (keeps_skip.from.bind fun _ => (keeps_expect _).bind fun _ => body.bind fun _ =>
            keeps_pure _)
          (keeps_pure _)
    · exact (keeps_expect _).bind fun _ => (keeps_parameters n).bind fun _ =>
        (keeps_expect _).bind fun _ => body.bind fun _ => keeps_pure _
    · exact keeps_fail _
    · exact keeps_fail _

theorem keeps_continuation (hstop : stop.value = .eof) (level : Nat) (left : Expr Unit) :
    ∀ n, Keeps (From stop) (continuation stop level left n)
  | 0 => keeps_exhausted
  | n + 1 => by
    refine .peek_bind fun t => ?_
    split
    · exact keeps_skip.from.bind fun _ => (keeps_items hstop _ n).bind fun _ =>
        keeps_continuation hstop level _ n
    · exact keeps_skip.from.bind fun _ => (keeps_expression hstop 0 n).from.bind fun _ =>
        (keeps_expect _).bind fun _ => keeps_continuation hstop level _ n
    · split
      · exact .ite
          (keeps_skip.from.bind fun _ => (keeps_expression hstop _ n).from.bind fun _ =>
            keeps_continuation hstop level _ n)
          (keeps_pure _)
      · exact keeps_pure _

theorem keeps_items (hstop : stop.value = .eof) (close : Mark) :
    ∀ n, Keeps (From stop) (items stop close n)
  | 0 => keeps_exhausted
  | n + 1 => .peek_bind fun _ => .ite
      (keeps_skip.from.bind fun _ => keeps_pure _)
      ((keeps_expression hstop 0 n).from.bind fun _ =>
        (keeps_moreItems hstop close n).bind fun _ => keeps_pure _)

theorem keeps_moreItems (hstop : stop.value = .eof) (close : Mark) :
    ∀ n, Keeps (From stop) (moreItems stop close n)
  | 0 => keeps_exhausted
  | n + 1 => .peek_bind fun _ => .ite
      (keeps_skip.from.bind fun _ => (keeps_expression hstop 0 n).from.bind fun _ =>
        (keeps_moreItems hstop close n).bind fun _ => keeps_pure _)
      ((keeps_expect _).bind fun _ => keeps_pure _)

end

/-! ## The fuel is enough -/

/-- A reader has the fuel that it needs at a cursor. -/
def Ends (p : Parse α) (c : Cursor) : Prop :=
  p c ≠ none

def Within (size : Nat) (p : Parse α) : Prop :=
  ∀ c, c.rest.length ≤ size → p.Ends c

variable {size : Nat}

theorem ends_bind {p : Parse α} {next : α → Parse β} {c : Cursor} (hp : p.Ends c)
    (hnext : p.wp c (fun a => (next a).Ends) (fun _ _ => True)) : (p >>= next).Ends c := by
  change andThen p next c ≠ none
  unfold wp Ends at hnext
  unfold andThen
  rcases h : p c with _ | ⟨_ | a, c'⟩
  · exact absurd h hp
  · simp
  · simpa [h] using hnext

theorem Within.bind {p : Parse α} {next : α → Parse β} (hp : Within size p)
    (hk : Keeps (From stop) p) (hnext : ∀ a, Within size (next a)) :
    Within size (p >>= next) := by
  intro c hc
  refine ends_bind (hp c hc) (wp_mono (hk c) (fun a c₁ h => ?_) (fun _ _ _ => trivial))
  exact hnext a c₁ (Nat.le_trans h.later.length_le hc)

theorem Within.peek_bind {next : Located Token → Parse α} (hnext : ∀ t, Within size (next t)) :
    Within size (peek stop >>= next) :=
  fun c hc => ends_bind (Option.some_ne_none _) (hnext _ c hc)

theorem Within.ite {P : Prop} [Decidable P] {p q : Parse α} (hp : Within size p)
    (hq : Within size q) : Within size (if P then p else q) := by
  split
  · exact hp
  · exact hq

theorem within_pure (a : α) : Within size (pure a : Parse α) :=
  fun _ _ => Option.some_ne_none _

theorem within_fail (e : ParseError) : Within size (fail e : Parse α) :=
  fun _ _ => Option.some_ne_none _

theorem within_skip : Within size (skip stop) :=
  fun _ _ => Option.some_ne_none _

theorem within_expect (m : Mark) : Within size (expect stop m) :=
  .peek_bind fun _ => .ite within_skip (within_fail _)

theorem within_skipSemicolon : Within size (skipSemicolon stop) :=
  .peek_bind fun _ => .ite within_skip (within_pure _)

theorem within_expectIdentifier : Within size (expectIdentifier stop) := by
  refine .peek_bind fun t => ?_
  split
  · exact within_skip.bind keeps_skip.from fun _ => within_pure _
  · exact within_fail _

/-- Behind a token that is not the end there is one token less to read. -/
theorem ends_skip_bind {next : Unit → Parse α} {c : Cursor} (hstop : stop.value = .eof)
    (ht : (c.next stop).value ≠ .eof) (hc : c.rest.length ≤ size)
    (hnext : ∀ k, k + 1 = size → Within k (next ())) : (skip stop >>= next).Ends c := by
  cases hr : c.rest with
  | nil => exact absurd (by rw [next_of_nil hr, hstop]) ht
  | cons t ts =>
    rw [hr, List.length_cons] at hc
    refine ends_bind (Option.some_ne_none _) ?_
    rw [wp_skip, advance_of_cons hr]
    exact hnext (size - 1) (by omega) _ (by change ts.length ≤ _; omega)

theorem within_moreParameters (hstop : stop.value = .eof) {n : Nat} (hn : size + 1 ≤ n) :
    Within size (moreParameters stop n) := by
  induction n generalizing size with
  | zero => omega
  | succ n ih =>
    intro c hc
    refine ends_bind (Option.some_ne_none _) ?_
    rw [wp_peek]
    split
    next ht =>
      refine ends_skip_bind hstop (by simp [ht]) hc fun k hk => ?_
      have hmore : Within k (moreParameters stop n) := ih (by omega)
      exact within_expectIdentifier.bind keeps_expectIdentifier fun _ =>
        hmore.bind (keeps_moreParameters n) fun _ => within_pure _
    next => exact (within_expect _).bind (keeps_expect _) (fun _ => within_pure _) c hc

theorem within_parameters (hstop : stop.value = .eof) {n : Nat} (hn : size + 1 ≤ n) :
    Within size (parameters stop n) :=
  .peek_bind fun _ => .ite
    (within_skip.bind keeps_skip.from fun _ => within_pure _)
    (within_expectIdentifier.bind keeps_expectIdentifier fun _ =>
      (within_moreParameters hstop hn).bind (keeps_moreParameters n) fun _ =>
        within_pure _)

mutual

theorem within_statements (hstop : stop.value = .eof) (inBlock : Bool) :
    ∀ n size, 8 * size + 4 ≤ n → Within size (statements stop inBlock n)
  | n + 1, size, hn => by
    intro c hc
    refine ends_bind (Option.some_ne_none _) ?_
    rw [wp_peek]
    split
    next => exact Option.some_ne_none _
    next hend =>
      have ht : (c.next stop).value ≠ .eof := fun h => hend (by simp [h, Token.endsBlock])
      split
      · refine ends_skip_bind hstop ht hc fun k hk => ?_
        exact within_statements hstop inBlock n k (by omega)
      · have hne : c.rest ≠ [] := fun h => ht (by rw [next_of_nil h, hstop])
        have next (a : Cursor) (ha : a.rest.length < c.rest.length) :
            (statements stop inBlock n).Ends a :=
          within_statements hstop inBlock n a.rest.length (by omega) a (Nat.le_refl _)
        have hs := within_statement hstop n size (by omega) c hc
        refine ends_bind (by simpa [Ends, attempt] using hs) ?_
        rw [wp_attempt]
        refine wp_mono (keeps_statement hstop n c) (fun s c₁ h => ?_) (fun e c₁ h => ?_)
        · refine ends_bind (next c₁ (h.length_lt hne)) ?_
          exact wp_mono (wp_statements_later hstop inBlock n c₁)
            (fun _ _ _ => Option.some_ne_none _) (fun _ _ _ => trivial)
        · refine ends_bind (Option.some_ne_none _) ?_
          rw [wp_recover]
          refine next _ (length_recovered_lt hstop h hne fun hb hv => hend ?_)
          simp [hv, hb, Token.endsBlock]
termination_by structural n => n

theorem within_statement (hstop : stop.value = .eof) :
    ∀ n size, 8 * size + 3 ≤ n → Within size (statement stop n)
  | n + 1, size, hn => by
    have expr := (within_expression hstop 0 n size (by omega))
    have tail (f : Expr Unit → Stmt Unit) (value : Expr Unit) :
        Within size (do skipSemicolon stop; return f value) :=
      within_skipSemicolon.bind keeps_skipSemicolon fun _ => within_pure _
    have keep := (keeps_expression hstop 0 n).from
    refine .peek_bind fun t => ?_
    split
    · exact within_skip.bind keeps_skip.from fun _ =>
        within_expectIdentifier.bind keeps_expectIdentifier fun name =>
        (within_expect _).bind (keeps_expect _) fun _ => expr.bind keep (tail (.var name))
    · exact within_skip.bind keeps_skip.from fun _ => .peek_bind fun _ => .ite
        (within_skipSemicolon.bind keeps_skipSemicolon fun _ => within_pure _)
        (expr.bind keep (tail .ret))
    · exact expr.bind keep (tail .expr)
termination_by structural n => n

theorem within_block (hstop : stop.value = .eof) :
    ∀ n size, 8 * size + 5 ≤ n → Within size (block stop n)
  | n + 1, size, hn => by
    intro c hc
    have h := within_statements hstop true n size (by omega) c hc
    refine ends_bind h (wp_mono (wp_statements_later hstop true n c) ?_ (fun _ _ _ => trivial))
    intro body c₁ _
    refine ends_bind (Option.some_ne_none _) ?_
    rw [wp_read]
    split
    · exact Option.some_ne_none _
    · exact Option.some_ne_none _
termination_by structural n => n

theorem within_expression (hstop : stop.value = .eof) (level : Nat) :
    ∀ n size, 8 * size + 2 ≤ n → Within size (expression stop level n)
  | n + 1, size, hn => by
    intro c hc
    refine ends_bind (Option.some_ne_none _) ?_
    rw [wp_read]
    cases hr : c.rest with
    | nil =>
      -- the end is no operand, and there is fuel to see that
      obtain ⟨n, rfl⟩ : ∃ k, n = k + 1 := ⟨n - 1, by omega⟩
      have ho : (operand stop stop (n + 1)).Ends (c.advance stop) := by
        simp [Ends, operand, hstop, fail]
      rw [next_of_nil hr]
      refine ends_bind ho (wp_mono (Q := fun _ _ => False) (E := fun _ _ => True) ?_
        (fun _ _ => False.elim) (fun _ _ _ => trivial))
      simp [operand, hstop]
    | cons t ts =>
      rw [hr, List.length_cons] at hc
      obtain ⟨k, rfl⟩ : ∃ k, size = k + 1 := ⟨size - 1, by omega⟩
      exact (within_operand hstop _ n k (by omega)).bind (keeps_operand hstop _ n)
        (fun left => within_continuation hstop level left n k (by omega)) _ (by simp [hr]; omega)
termination_by structural n => n

theorem within_operand (hstop : stop.value = .eof) (t : Located Token) :
    ∀ n size, 8 * size + 6 ≤ n → Within size (operand stop t n)
  | n + 1, size, hn => by
    have expr (level : Nat) {next : Expr Unit → Parse (Expr Unit)}
        (h : ∀ e, Within size (next e)) : Within size (expression stop level n >>= next) :=
      (within_expression hstop level n size (by omega)).bind (keeps_expression hstop level n).from h
    have body {next : Program → Parse (Expr Unit)} (h : ∀ p, Within size (next p)) :
        Within size (block stop n >>= next) :=
      (within_block hstop n size (by omega)).bind (keeps_block hstop n).from h
    have mark (m : Mark) {next : Unit → Parse (Expr Unit)} (h : ∀ u, Within size (next u)) :
        Within size (expect stop m >>= next) :=
      (within_expect m).bind (keeps_expect m) h
    unfold operand
    split
    · exact within_pure _
    · split
      · exact within_pure _
      · exact within_fail _
    · exact within_pure _
    · exact within_pure _
    · exact within_pure _
    · exact within_pure _
    · exact expr _ fun _ => within_pure _
    · exact expr _ fun _ => within_pure _
    · exact expr 0 fun _ => mark _ fun _ => within_pure _
    · exact (within_items hstop _ n size (by omega)).bind (keeps_items hstop _ n) fun _ =>
        within_pure _
    · exact mark _ fun _ => expr 0 fun _ => mark _ fun _ => mark _ fun _ => body fun _ =>
        .peek_bind fun _ => .ite
          (within_skip.bind keeps_skip.from fun _ => mark _ fun _ => body fun _ => within_pure _)
          (within_pure _)
    · exact mark _ fun _ => (within_parameters hstop (by omega)).bind (keeps_parameters n) fun _ =>
        mark _ fun _ => body fun _ => within_pure _
    · exact within_fail _
    · exact within_fail _
termination_by structural n => n

theorem within_continuation (hstop : stop.value = .eof) (level : Nat) (left : Expr Unit) :
    ∀ n size, 8 * size + 1 ≤ n → Within size (continuation stop level left n)
  | n + 1, size, hn => by
    intro c hc
    have next (k : Nat) (hk : k + 1 = size) (e : Expr Unit) :=
      within_continuation hstop level e n k (by omega)
    refine ends_bind (Option.some_ne_none _) ?_
    rw [wp_peek]
    split
    next ht =>
      refine ends_skip_bind hstop (by simp [ht]) hc fun k hk => ?_
      exact (within_items hstop _ n k (by omega)).bind (keeps_items hstop _ n) fun _ => next k hk _
    next ht =>
      refine ends_skip_bind hstop (by simp [ht]) hc fun k hk => ?_
      exact (within_expression hstop 0 n k (by omega)).bind (keeps_expression hstop 0 n).from
        fun _ => (within_expect _).bind (keeps_expect _) fun _ => next k hk _
    next =>
      split
      next op hop =>
        split
        · refine ends_skip_bind hstop ?_ hc fun k hk => ?_
          · rw [InfixOp.ofToken?_eq_some_iff.1 hop]
            cases op <;> simp [InfixOp.token]
          · exact (within_expression hstop _ n k (by omega)).bind
              (keeps_expression hstop _ n).from fun _ => next k hk _
        · exact Option.some_ne_none _
      next => exact Option.some_ne_none _
termination_by structural n => n

theorem within_items (hstop : stop.value = .eof) (close : Mark) :
    ∀ n size, 8 * size + 4 ≤ n → Within size (items stop close n)
  | n + 1, size, hn => .peek_bind fun _ => .ite
      (within_skip.bind keeps_skip.from fun _ => within_pure _)
      ((within_expression hstop 0 n size (by omega)).bind (keeps_expression hstop 0 n).from
        fun _ => (within_moreItems hstop close n size (by omega)).bind
          (keeps_moreItems hstop close n) fun _ => within_pure _)
termination_by structural n => n

theorem within_moreItems (hstop : stop.value = .eof) (close : Mark) :
    ∀ n size, 8 * size + 3 ≤ n → Within size (moreItems stop close n)
  | n + 1, size, hn => by
    intro c hc
    refine ends_bind (Option.some_ne_none _) ?_
    rw [wp_peek]
    split
    next ht =>
      refine ends_skip_bind hstop (by simp [ht]) hc fun k hk => ?_
      exact (within_expression hstop 0 n k (by omega)).bind (keeps_expression hstop 0 n).from
        fun _ => (within_moreItems hstop close n k (by omega)).bind
          (keeps_moreItems hstop close n) fun _ => within_pure _
    next => exact (within_expect _).bind (keeps_expect _) (fun _ => within_pure _) c hc
termination_by structural n => n

end

end Parse

namespace Stream

/-- What is to be shown about the end of reading a stream may be shown with the rules for readers:
the fuel does not run out, and statements are never refused as a whole. -/
theorem parse_spec (s : Stream) {Q : Program → Cursor → Prop}
    (h : (statements s.eof false s.fuel).wp ⟨s.eof, s.tokens, []⟩ Q (fun _ _ => True)) :
    ∃ p c, s.parse = ⟨p, c.errors.reverse⟩ ∧ Q p c := by
  have hsize : 8 * s.tokens.length + 4 ≤ s.fuel := by
    unfold fuel
    omega
  have hends : (statements s.eof false s.fuel).Ends ⟨s.eof, s.tokens, []⟩ :=
    Parse.within_statements rfl false s.fuel s.tokens.length hsize _ (Nat.le_refl _)
  have hlater := @Parse.wp_statements_later s.eof rfl false s.fuel ⟨s.eof, s.tokens, []⟩
  unfold Parse.wp at h hlater
  rcases hr : statements s.eof false s.fuel ⟨s.eof, s.tokens, []⟩ with _ | ⟨_ | p, c⟩
  · exact absurd hr hends
  · simp [hr] at hlater
  · exact ⟨p, c, by simp [parse, hr], by simpa [hr] using h⟩

end Stream

end Scriptlet
