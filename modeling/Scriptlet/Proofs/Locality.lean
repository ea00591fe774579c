import Scriptlet.Proofs.Completeness

/-!
# Readers stay inside their braces

How a statement is read does not depend on what follows the braces around it. That is said of two
readings at once, of rows that agree up to a point (`Aligned`): they end alike (`Twin`), and where
they end the rows still agree up to that point. The readers and the braces may differ in how many
blocks are open, because recovery can close a block too early. It never closes one too late, and
this is what carries the induction: at least as many braces are open as there are blocks being read.
-/

namespace Scriptlet

/-- Whether braces are closed in order when `depth` of them are open, and no semicolon stands
outside of all braces. -/
def nested : Nat → List Token → Bool
  | depth, [] => depth == 0
  | depth, t :: ts =>
    match t with
    | .mark .leftBrace => nested (depth + 1) ts
    | .mark .rightBrace => depth != 0 && nested (depth - 1) ts
    | .mark .semicolon => depth != 0 && nested depth ts
    | .eof => false
    | _ => nested depth ts

section

variable {t : Token} {ts : List Token} {depth : Nat}

@[simp] theorem nested_nil : nested depth [] = (depth == 0) :=
  rfl

@[simp] theorem nested_leftBrace :
    nested depth (.mark .leftBrace :: ts) = nested (depth + 1) ts :=
  rfl

@[simp] theorem nested_rightBrace :
    nested depth (.mark .rightBrace :: ts) = (depth != 0 && nested (depth - 1) ts) :=
  rfl

@[simp] theorem nested_semicolon :
    nested depth (.mark .semicolon :: ts) = (depth != 0 && nested depth ts) :=
  rfl

@[simp] theorem nested_eof : nested depth (.eof :: ts) = false :=
  rfl

/-- How tokens whose braces are closed in order can begin. -/
theorem nested_cons (h : nested depth (t :: ts) = true) :
    (t = .mark .leftBrace ∧ nested (depth + 1) ts = true) ∨
      (t = .mark .rightBrace ∧ depth ≠ 0 ∧ nested (depth - 1) ts = true) ∨
      (t = .mark .semicolon ∧ depth ≠ 0 ∧ nested depth ts = true) ∨
      ((t ≠ .mark .leftBrace ∧ t ≠ .mark .rightBrace ∧ t ≠ .mark .semicolon ∧ t ≠ .eof) ∧
        nested depth ts = true) := by
  cases t with
  | mark m => cases m <;> simp_all [nested]
  | eof => simp at h
  | _ => exact .inr (.inr (.inr ⟨by simp, h⟩))

end

/-- Two rows that agree up to `S` and `S'`, and in what they agree close at least `k` braces that
are open. -/
def Aligned (S S' : List Token) (k : Nat) (r r' : List Token) : Prop :=
  ∃ X d, r = X ++ S ∧ r' = X ++ S' ∧ nested d X = true ∧ k ≤ d

/-- Where no brace is open, a semicolon ends what the rows have in common. -/
def Barrier (S S' : List Token) (k : Nat) : Prop :=
  k = 0 → ∃ U U', S = .mark .semicolon :: U ∧ S' = .mark .semicolon :: U'

theorem barrier_semicolon (U U' : List Token) (k : Nat) :
    Barrier (.mark .semicolon :: U) (.mark .semicolon :: U') k :=
  fun _ => ⟨U, U', rfl, rfl⟩

namespace Aligned

variable {S S' r r' ts ts' : List Token} {t t' : Token} {j k : Nat}

theorem mono (h : Aligned S S' k r r') (hjk : j ≤ k) : Aligned S S' j r r' := by
  obtain ⟨X, d, hr, hr', hX, hd⟩ := h
  exact ⟨X, d, hr, hr', hX, Nat.le_trans hjk hd⟩

theorem head (h : Aligned S S' k r r') (hS : Barrier S S' k) :
    ∃ t ts ts', r = t :: ts ∧ r' = t :: ts' ∧ t ≠ .eof := by
  obtain ⟨X, d, rfl, rfl, hX, hd⟩ := h
  cases X with
  | nil =>
    have hd₀ : d = 0 := by simpa using hX
    obtain ⟨U, U', rfl, rfl⟩ := hS (by omega)
    exact ⟨_, U, U', rfl, rfl, by simp⟩
  | cons x X =>
    refine ⟨x, X ++ S, X ++ S', rfl, rfl, ?_⟩
    rintro rfl
    simp at hX

theorem tail_leftBrace (h : Aligned S S' k (.mark .leftBrace :: ts) (.mark .leftBrace :: ts'))
    (hS : Barrier S S' k) : Aligned S S' (k + 1) ts ts' := by
  obtain ⟨X, d, hr, hr', hX, hd⟩ := h
  cases X with
  | nil =>
    have hd₀ : d = 0 := by simpa using hX
    obtain ⟨U, U', rfl, rfl⟩ := hS (by omega)
    simp at hr
  | cons x X =>
    simp only [List.cons_append, List.cons.injEq] at hr hr'
    obtain ⟨rfl, rfl⟩ := hr
    exact ⟨X, d + 1, rfl, hr'.2, by simpa using hX, by omega⟩

theorem tail_rightBrace
    (h : Aligned S S' (k + 1) (.mark .rightBrace :: ts) (.mark .rightBrace :: ts')) :
    Aligned S S' k ts ts' := by
  obtain ⟨X, d, hr, hr', hX, hd⟩ := h
  cases X with
  | nil =>
    have hd₀ : d = 0 := by simpa using hX
    omega
  | cons x X =>
    simp only [List.cons_append, List.cons.injEq] at hr hr'
    obtain ⟨rfl, rfl⟩ := hr
    simp only [nested_rightBrace, Bool.and_eq_true] at hX
    exact ⟨X, d - 1, rfl, hr'.2, hX.2, by omega⟩

/-- Other tokens change nothing, but a semicolon outside of all braces may be the last one that the
rows have in common. -/
theorem tail (h : Aligned S S' k (t :: ts) (t' :: ts')) (hS : Barrier S S' k)
    (hbrace : t ≠ .mark .rightBrace) (hsemicolon : t = .mark .semicolon → k ≠ 0) :
    Aligned S S' k ts ts' := by
  obtain ⟨X, d, hr, hr', hX, hd⟩ := h
  cases X with
  | nil =>
    have hd₀ : d = 0 := by simpa using hX
    obtain ⟨U, U', rfl, rfl⟩ := hS (by omega)
    simp only [List.nil_append, List.cons.injEq] at hr
    exact absurd (by omega) (hsemicolon hr.1)
  | cons x X =>
    simp only [List.cons_append, List.cons.injEq] at hr hr'
    obtain ⟨rfl, rfl⟩ := hr
    rcases nested_cons hX with ⟨rfl, hX⟩ | ⟨rfl, -, -⟩ | ⟨rfl, -, hX⟩ | ⟨-, hX⟩
    · exact ⟨X, d + 1, rfl, hr'.2, hX, by omega⟩
    · exact absurd rfl hbrace
    · exact ⟨X, d, rfl, hr'.2, hX, hd⟩
    · exact ⟨X, d, rfl, hr'.2, hX, hd⟩

/-- A semicolon may be the last token that the rows have in common. -/
theorem tail_semicolon
    (h : Aligned S S' k (.mark .semicolon :: ts) (.mark .semicolon :: ts')) :
    Aligned S S' k ts ts' ∨
      k = 0 ∧ S = .mark .semicolon :: ts ∧ S' = .mark .semicolon :: ts' := by
  obtain ⟨X, d, hr, hr', hX, hd⟩ := h
  cases X with
  | nil =>
    have hd₀ : d = 0 := by simpa using hX
    exact .inr ⟨by omega, hr.symm, hr'.symm⟩
  | cons x X =>
    simp only [List.cons_append, List.cons.injEq] at hr hr'
    obtain ⟨rfl, rfl⟩ := hr
    simp only [nested_semicolon, Bool.and_eq_true] at hX
    exact .inl ⟨X, d, rfl, hr'.2, hX.2, hd⟩

end Aligned

/-! ## Recovery -/

section

variable {S S' U X : List Token} {depth k : Nat} {row row' : List (Located Token)}

/-- Recovery skips as far as the semicolon if all braces between are closed in order. -/
theorem skipStatement_of_nested (hrow : row.map (·.value) = X ++ .mark .semicolon :: U)
    (hX : nested depth X = true) : (Parse.skipStatement depth row).map (·.value) = U := by
  induction X generalizing row depth with
  | nil =>
    obtain rfl : depth = 0 := by simpa using hX
    obtain ⟨t, ts, rfl, ht, hts⟩ := List.map_eq_cons_iff.1 hrow
    rw [Parse.skipStatement_semicolon ht, if_pos rfl, hts]
  | cons x X ih =>
    obtain ⟨t, ts, rfl, ht, hts⟩ := List.map_eq_cons_iff.1 hrow
    rcases nested_cons hX with ⟨rfl, hX⟩ | ⟨rfl, hd, hX⟩ | ⟨rfl, hd, hX⟩ | ⟨⟨hl, hr, hs, -⟩, hX⟩
    · rw [Parse.skipStatement_leftBrace ht]
      exact ih hts hX
    · rw [Parse.skipStatement_rightBrace ht, if_neg hd]
      exact ih hts hX
    · rw [Parse.skipStatement_semicolon ht, if_neg hd]
      exact ih hts hX
    · rw [Parse.skipStatement_other (by rwa [ht]) (by rwa [ht]) (by rwa [ht])]
      exact ih hts hX

/-- Recovery does not leave the braces that are open where it begins. -/
theorem aligned_skipStatement (hrow : row.map (·.value) = X ++ S)
    (hrow' : row'.map (·.value) = X ++ S') (hX : nested (k + depth) X = true) (hk : k ≠ 0) :
    ∃ Y, (Parse.skipStatement depth row).map (·.value) = Y ++ S ∧
      (Parse.skipStatement depth row').map (·.value) = Y ++ S' ∧ nested k Y = true := by
  induction X generalizing row row' depth with
  | nil =>
    have hzero : k + depth = 0 := by simpa using hX
    omega
  | cons x X ih =>
    obtain ⟨t, ts, rfl, ht, hts⟩ := List.map_eq_cons_iff.1 hrow
    obtain ⟨t', ts', rfl, ht', hts'⟩ := List.map_eq_cons_iff.1 hrow'
    rcases nested_cons hX with
      ⟨rfl, hX₁⟩ | ⟨rfl, -, hX₁⟩ | ⟨rfl, -, hX₁⟩ | ⟨⟨hl, hr, hs, -⟩, hX₁⟩
    · rw [Parse.skipStatement_leftBrace ht, Parse.skipStatement_leftBrace ht']
      exact ih hts hts' (by rwa [← Nat.add_assoc])
    · rw [Parse.skipStatement_rightBrace ht, Parse.skipStatement_rightBrace ht']
      by_cases hdepth : depth = 0
      · subst hdepth
        exact ⟨.mark .rightBrace :: X, by simp [ht, hts], by simp [ht', hts'], hX⟩
      · rw [if_neg hdepth, if_neg hdepth]
        exact ih hts hts' (by rwa [← Nat.add_sub_assoc (by omega)])
    · rw [Parse.skipStatement_semicolon ht, Parse.skipStatement_semicolon ht']
      by_cases hdepth : depth = 0
      · subst hdepth
        exact ⟨X, hts, hts', hX₁⟩
      · rw [if_neg hdepth, if_neg hdepth]
        exact ih hts hts' hX₁
    · rw [Parse.skipStatement_other (by rwa [ht]) (by rwa [ht]) (by rwa [ht]),
        Parse.skipStatement_other (by rwa [ht']) (by rwa [ht']) (by rwa [ht'])]
      exact ih hts hts' hX₁

end

/-! ## Two readings at once -/

namespace Parse

open Cursor

variable {α β : Type}

/-- Two ends that are alike: with one value at cursors with `J`, or with errors at cursors with
`F`. -/
inductive Alike (J F : Cursor → Cursor → Prop) :
    Except ParseError α → Cursor → Except ParseError α → Cursor → Prop
  | ok {c c' : Cursor} (a : α) (h : J c c') : Alike J F (.ok a) c (.ok a) c'
  | error {c c' : Cursor} (e e' : ParseError) (h : F c c') : Alike J F (.error e) c (.error e') c'

/-- From two cursors with `I` two readers end alike, if both have fuel enough. -/
def Twin (I J F : Cursor → Cursor → Prop) (p p' : Parse α) : Prop :=
  ∀ c c', I c c' → ∀ r c₁ r' c₁', p c = some (r, c₁) → p' c' = some (r', c₁') →
    Alike J F r c₁ r' c₁'

section

variable {I I' J J' K F F' : Cursor → Cursor → Prop}

theorem Twin.mono {p p' : Parse α} (h : Twin I J F p p') (hI : ∀ c c', I' c c' → I c c')
    (hJ : ∀ c c', J c c' → J' c c') (hF : ∀ c c', F c c' → F' c c') : Twin I' J' F' p p' := by
  intro c c' hc r c₁ r' c₁' hp hp'
  cases h c c' (hI c c' hc) r c₁ r' c₁' hp hp' with
  | ok a h => exact .ok a (hJ _ _ h)
  | error e e' h => exact .error e e' (hF _ _ h)

theorem Twin.pre {p p' : Parse α} (h : Twin I J F p p') (hI : ∀ c c', I' c c' → I c c') :
    Twin I' J F p p' :=
  h.mono hI (fun _ _ => id) (fun _ _ => id)

theorem twin_exhausted_left {p : Parse α} : Twin I J F exhausted p := by
  intro c c' _ r c₁ r' c₁' hp
  cases hp

theorem twin_exhausted_right {p : Parse α} : Twin I J F p exhausted := by
  intro c c' _ r c₁ r' c₁' _ hp'
  cases hp'

theorem twin_pure (a : α) (h : ∀ c c', I c c' → J c c') : Twin I J F (pure a) (pure a) := by
  intro c c' hc r c₁ r' c₁' hp hp'
  cases hp
  cases hp'
  exact .ok a (h c c' hc)

theorem twin_fail (e e' : ParseError) (h : ∀ c c', I c c' → F c c') :
    Twin I J F (fail e : Parse α) (fail e') := by
  intro c c' hc r c₁ r' c₁' hp hp'
  cases hp
  cases hp'
  exact .error e e' (h c c' hc)

theorem Twin.bind {p p' : Parse α} {next next' : α → Parse β} (hp : Twin I J F p p')
    (hnext : ∀ a, Twin J K F (next a) (next' a)) : Twin I K F (p >>= next) (p' >>= next') := by
  intro c c' hc r c₁ r' c₁' h h'
  change andThen p next c = _ at h
  change andThen p' next' c' = _ at h'
  unfold andThen at h h'
  rcases hr : p c with _ | ⟨x, c₂⟩
  · simp [hr] at h
  rcases hr' : p' c' with _ | ⟨x', c₂'⟩
  · simp [hr'] at h'
  rw [hr] at h
  rw [hr'] at h'
  cases hp c c' hc x c₂ x' c₂' hr hr' with
  | ok a hJ => exact hnext a c₂ c₂' hJ r c₁ r' c₁' h h'
  | error e e' hF =>
    cases h
    cases h'
    exact .error e e' hF

/-- Failures are values, but not the same ones: their spans need not agree. -/
theorem Twin.attempt_bind {G : Cursor → Cursor → Prop} {p p' : Parse α}
    {next next' : Except ParseError α → Parse β} (hp : Twin I J F p p')
    (hok : ∀ a, Twin J K G (next (.ok a)) (next' (.ok a)))
    (herror : ∀ e e', Twin F K G (next (.error e)) (next' (.error e'))) :
    Twin I K G (attempt p >>= next) (attempt p' >>= next') := by
  intro c c' hc r c₁ r' c₁' h h'
  change andThen (attempt p) next c = _ at h
  change andThen (attempt p') next' c' = _ at h'
  unfold andThen attempt at h h'
  rcases hr : p c with _ | ⟨x, c₂⟩
  · simp [hr] at h
  rcases hr' : p' c' with _ | ⟨x', c₂'⟩
  · simp [hr'] at h'
  rw [hr] at h
  rw [hr'] at h'
  cases hp c c' hc x c₂ x' c₂' hr hr' with
  | ok a hJ => exact hok a c₂ c₂' hJ r c₁ r' c₁' h h'
  | error e e' hF => exact herror e e' c₂ c₂' hF r c₁ r' c₁' h h'

theorem Twin.wp_self {p : Parse α} {c : Cursor} (h : Twin I J F p p) (hc : I c c) :
    p.wp c (fun _ c' => J c' c') fun _ c' => F c' c' := by
  unfold wp
  rcases hr : p c with _ | ⟨x, c'⟩
  · trivial
  cases h c c hc _ _ _ _ hr hr with
  | ok a h => exact h
  | error e _ h => exact h

theorem Twin.ite {P P' : Prop} [Decidable P] [Decidable P'] {p p' q q' : Parse α} (hP : P ↔ P')
    (hp : P → Twin I J F p p') (hq : ¬ P → Twin I J F q q') :
    Twin I J F (if P then p else q) (if P' then p' else q') := by
  by_cases h : P
  · rw [if_pos h, if_pos (hP.1 h)]
    exact hp h
  · rw [if_neg h, if_neg fun h' => h (hP.2 h')]
    exact hq h

end

/-! ## Cursors in aligned rows -/

variable {S S' : List Token} {v : Token} {stop stop' : Located Token}

section

variable {k : Nat} {J F : Cursor → Cursor → Prop}

def Ahead (S S' : List Token) (k : Nat) (c c' : Cursor) : Prop :=
  Aligned S S' k c.values c'.values

/-- The tokens from the one read last on are aligned. Recovery starts there. -/
def Behind (S S' : List Token) (k : Nat) (c c' : Cursor) : Prop :=
  Aligned S S' k (c.last.value :: c.values) (c'.last.value :: c'.values)

def Amid (S S' : List Token) (k : Nat) (c c' : Cursor) : Prop :=
  Ahead S S' k c c' ∧ Behind S S' k c c'

def Facing (S S' : List Token) (k : Nat) (v : Token) (c c' : Cursor) : Prop :=
  Ahead S S' k c c' ∧ c.values.head? = some v ∧ c'.values.head? = some v

def Taken (S S' : List Token) (k : Nat) (v : Token) (c c' : Cursor) : Prop :=
  Behind S S' k c c' ∧ c.last.value = v ∧ c'.last.value = v

def Done (S S' : List Token) (k : Nat) (c c' : Cursor) : Prop :=
  Ahead S S' k c c' ∨
    k = 0 ∧ S = .mark .semicolon :: c.values ∧ S' = .mark .semicolon :: c'.values

section

variable {c c' : Cursor}

theorem Facing.taken (stop stop' : Located Token) (h : Facing S S' k v c c') :
    Taken S S' k v (c.advance stop) (c'.advance stop') := by
  obtain ⟨hahead, hv, hv'⟩ := h
  unfold Ahead Cursor.values at hahead
  unfold Cursor.values at hv hv'
  cases hr : c.rest with
  | nil => simp [hr] at hv
  | cons t ts =>
    cases hr' : c'.rest with
    | nil => simp [hr'] at hv'
    | cons t' ts' =>
      rw [hr, hr'] at hahead
      rw [advance_of_cons hr, advance_of_cons hr']
      exact ⟨hahead, by simpa [hr] using hv, by simpa [hr'] using hv'⟩

theorem Taken.amid (h : Taken S S' k v c c') (hS : Barrier S S' k) (hbrace : v ≠ .mark .rightBrace)
    (hsemicolon : v = .mark .semicolon → k ≠ 0) : Amid S S' k c c' := by
  obtain ⟨hbehind, hv, hv'⟩ := h
  exact ⟨Aligned.tail hbehind hS (hv ▸ hbrace) (hv ▸ hsemicolon), hbehind⟩

theorem Taken.leftBrace (h : Taken S S' k (.mark .leftBrace) c c') (hS : Barrier S S' k) :
    Ahead S S' (k + 1) c c' := by
  obtain ⟨hbehind, hv, hv'⟩ := h
  unfold Behind at hbehind
  rw [hv, hv'] at hbehind
  exact hbehind.tail_leftBrace hS

theorem Taken.rightBrace (h : Taken S S' (k + 1) (.mark .rightBrace) c c') : Amid S S' k c c' := by
  obtain ⟨hbehind, hv, hv'⟩ := h
  refine ⟨?_, Aligned.mono hbehind (Nat.le_succ k)⟩
  unfold Behind at hbehind
  rw [hv, hv'] at hbehind
  exact hbehind.tail_rightBrace

theorem Taken.semicolon (h : Taken S S' k (.mark .semicolon) c c') : Done S S' k c c' := by
  obtain ⟨hbehind, hv, hv'⟩ := h
  unfold Behind at hbehind
  rw [hv, hv'] at hbehind
  exact hbehind.tail_semicolon

/-- What is looked at next is the same token in both rows, and not the end. -/
theorem Ahead.facing (stop stop' : Located Token) (h : Ahead S S' k c c') (hS : Barrier S S' k) :
    (c'.next stop').value = (c.next stop).value ∧ (c.next stop).value ≠ .eof ∧
      Facing S S' k (c.next stop).value c c' := by
  obtain ⟨t, ts, ts', ht, ht', hne⟩ := Aligned.head h hS
  have hnext : (c.next stop).value = t := value_next_of_cons ht
  have hnext' : (c'.next stop').value = t := value_next_of_cons ht'
  rw [hnext, hnext']
  exact ⟨rfl, hne, h, by simp [ht], by simp [ht']⟩

end

theorem twin_peek_bind (hS : Barrier S S' k) {I : Cursor → Cursor → Prop}
    (hI : ∀ c c', I c c' → Ahead S S' k c c') {next next' : Located Token → Parse α}
    (h : ∀ t t', t'.value = t.value → t.value ≠ .eof →
      Twin (fun c c' => I c c' ∧ Facing S S' k t.value c c') J F (next t) (next' t')) :
    Twin I J F (peek stop >>= next) (peek stop' >>= next') := by
  intro c c' hc r c₁ r' c₁' hp hp'
  obtain ⟨heq, hne, hfacing⟩ := Ahead.facing stop stop' (hI c c' hc) hS
  exact h _ _ heq hne c c' ⟨hc, hfacing⟩ r c₁ r' c₁' hp hp'

theorem twin_read_bind (hS : Barrier S S' k) {next next' : Located Token → Parse α}
    (h : ∀ t t', t'.value = t.value →
      Twin (Taken S S' k t.value) J F (next t) (next' t')) :
    Twin (Ahead S S' k) J F (read stop >>= next) (read stop' >>= next') := by
  intro c c' hc r c₁ r' c₁' hp hp'
  obtain ⟨heq, -, hfacing⟩ := Ahead.facing stop stop' hc hS
  exact h _ _ heq _ _ (hfacing.taken stop stop') r c₁ r' c₁' hp hp'

theorem twin_skip (h : ∀ c c', Taken S S' k v c c' → J c c') :
    Twin (Facing S S' k v) J F (skip stop) (skip stop') := by
  intro c c' hc r c₁ r' c₁' hp hp'
  cases hp
  cases hp'
  exact .ok () (h _ _ (hc.taken stop stop'))

theorem twin_skip_right {I : Cursor → Cursor → Prop}
    (h : ∀ c c', Taken S S' k v c c' → J c c') :
    Twin (fun c c' => I c c' ∧ Facing S S' k v c c') J F (skip stop) (skip stop') :=
  (twin_skip h).pre fun _ _ => And.right

/-- The token in front may be taken anywhere if it is no brace and no semicolon. -/
theorem twin_skip_amid {I : Cursor → Cursor → Prop} (hS : Barrier S S' k)
    (hbrace : v ≠ .mark .rightBrace) (hsemicolon : v ≠ .mark .semicolon) :
    Twin (fun c c' => I c c' ∧ Facing S S' k v c c') (Amid S S' k) F (skip stop) (skip stop') :=
  twin_skip_right fun _ _ hc => hc.amid hS hbrace fun h => absurd h hsemicolon

theorem twin_read_facing_bind {next next' : Located Token → Parse α}
    (h : ∀ t t', t.value = v → t'.value = v → Twin (Taken S S' k v) J F (next t) (next' t')) :
    Twin (Facing S S' k v) J F (read stop >>= next) (read stop' >>= next') := by
  intro c c' hc r c₁ r' c₁' hp hp'
  have ht := hc.taken stop stop'
  exact h _ _ ht.2.1 ht.2.2 _ _ ht r c₁ r' c₁' hp hp'

theorem twin_expect (hS : Barrier S S' k) (m : Mark)
    (h : ∀ c c', Taken S S' k (.mark m) c c' → J c c') :
    Twin (Amid S S' k) J (Behind S S' k) (expect stop m) (expect stop' m) :=
  twin_peek_bind hS (fun _ _ => And.left) fun t t' ht _ => Twin.ite (by rw [ht])
    (fun hm => (twin_skip fun c c' hc => h c c' (hm ▸ hc)).pre fun _ _ => And.right)
    fun _ => twin_fail _ _ fun _ _ hc => hc.1.2

theorem twin_expect_amid (hS : Barrier S S' k) {m : Mark} (hbrace : m ≠ .rightBrace)
    (hsemicolon : m ≠ .semicolon) :
    Twin (Amid S S' k) (Amid S S' k) (Behind S S' k) (expect stop m) (expect stop' m) :=
  twin_expect hS m fun _ _ h => h.amid hS (by simpa using hbrace) fun hm =>
    absurd (Token.mark.inj hm) hsemicolon

theorem twin_expectIdentifier (hS : Barrier S S' k) :
    Twin (Amid S S' k) (Amid S S' k) (Behind S S' k) (expectIdentifier stop)
      (expectIdentifier stop') := by
  refine twin_peek_bind hS (fun _ _ => And.left) fun t t' ht _ => ?_
  rw [ht]
  split
  next name hname =>
    have hskip : Twin (fun c c' => Amid S S' k c c' ∧ Facing S S' k t.value c c') (Amid S S' k)
        (Behind S S' k) (skip stop) (skip stop') :=
      (twin_skip fun c c' hc => hc.amid hS (by simp [hname]) (by simp [hname])).pre
        fun _ _ => And.right
    exact hskip.bind fun _ => twin_pure _ fun _ _ => id
  next => exact twin_fail _ _ fun _ _ hc => hc.1.2

theorem twin_skipSemicolon (hS : Barrier S S' k) :
    Twin (Amid S S' k) (Done S S' k) F (skipSemicolon stop) (skipSemicolon stop') :=
  twin_peek_bind hS (fun _ _ => And.left) fun t t' ht _ => Twin.ite (by rw [ht])
    (fun hm => (twin_skip fun c c' hc => (hm ▸ hc).semicolon).pre fun _ _ => And.right)
    fun _ => twin_pure _ fun _ _ hc => .inl hc.1.1

/-- Recovery from errors inside a block stays in the block. -/
theorem twin_recover (hk : k ≠ 0) (e e' : ParseError) :
    Twin (Behind S S' k) (Ahead S S' k) F (recover true e) (recover true e') := by
  intro c c' hc r c₁ r' c₁' hp hp'
  cases hp
  cases hp'
  obtain ⟨X, d, hX, hX', hnested, hd⟩ := hc
  obtain ⟨Y, hY, hY', hY₀⟩ := @aligned_skipStatement S S' X 0 d (c.last :: c.rest)
    (c'.last :: c'.rest) hX hX' hnested (by omega)
  exact .ok () ⟨Y, d, hY, hY', hY₀, hd⟩

theorem twin_moreParameters (hS : Barrier S S' k) (n n' : Nat) :
    Twin (Amid S S' k) (Amid S S' k) (Behind S S' k) (moreParameters stop n)
      (moreParameters stop' n') := by
  induction n generalizing n' with
  | zero => exact twin_exhausted_left
  | succ n ih =>
    rcases n' with _ | n'
    · exact twin_exhausted_right
    refine twin_peek_bind hS (fun _ _ => And.left) fun t t' ht _ => Twin.ite (by rw [ht])
      (fun hm => ?_) fun _ => ?_
    · exact (twin_skip_amid hS (by simp [hm]) (by simp [hm])).bind fun _ =>
        (twin_expectIdentifier hS).bind fun name =>
        (ih n').bind fun names => twin_pure _ fun _ _ => id
    · exact ((twin_expect_amid hS (by simp) (by simp)).pre fun _ _ => And.left).bind
        fun _ => twin_pure _ fun _ _ => id

theorem twin_parameters (hS : Barrier S S' k) (n n' : Nat) :
    Twin (Amid S S' k) (Amid S S' k) (Behind S S' k) (parameters stop n) (parameters stop' n') := by
  refine twin_peek_bind hS (fun _ _ => And.left) fun t t' ht _ => Twin.ite (by rw [ht])
    (fun hm => ?_) fun _ => ?_
  · exact ((twin_skip fun c c' hc => (hm ▸ hc : Taken S S' k (.mark .rightParen) c c').amid hS
      (by simp) (by simp)).pre fun _ _ => And.right).bind fun _ => twin_pure _ fun _ _ => id
  · exact ((twin_expectIdentifier hS).pre fun _ _ => And.left).bind fun name =>
      (twin_moreParameters hS n n').bind fun names => twin_pure _ fun _ _ => id

theorem ne_of_mem_close {close m : Mark} (hclose : close ∈ [Mark.rightParen, .rightBracket])
    (hm : m ∉ [Mark.rightParen, .rightBracket]) : close ≠ m := by
  rintro rfl
  exact hm hclose

end

/-! ## The readers, one by one -/

mutual

theorem twin_statements {F : Cursor → Cursor → Prop} {k : Nat} (hk : k ≠ 0) : ∀ n n',
    Twin (Ahead S S' k) (Facing S S' k (.mark .rightBrace)) F (statements stop true n)
      (statements stop' true n')
  | 0, _ => twin_exhausted_left
  | _ + 1, 0 => twin_exhausted_right
  | n + 1, n' + 1 => by
    have hS : Barrier S S' k := fun h => absurd h hk
    have next := @twin_statements F k hk n n'
    refine twin_peek_bind hS (fun _ _ => id) fun t t' ht hne => Twin.ite (by rw [ht])
      (fun hend => ?_) fun _ => Twin.ite (by rw [ht]) (fun hm => ?_) fun _ => ?_
    · have hbrace : t.value = .mark .rightBrace := by
        unfold Token.endsBlock at hend
        split at hend
        next heof => exact absurd heof hne
        next hbrace => exact hbrace
        next => cases hend
      exact twin_pure _ fun _ _ hc => hbrace ▸ hc.2
    · exact (twin_skip_right fun c c' hc => (hc.amid hS (by simp [hm]) fun _ => hk).1).bind
        fun _ => next
    · exact ((twin_statement hS n n').pre fun _ _ => And.left).attempt_bind
        (fun s => (next.pre fun _ _ hc => hc.resolve_right fun h => hk h.1).bind fun ss =>
          twin_pure _ fun _ _ => id)
        fun e e' => (twin_recover hk e e').bind fun _ => next
termination_by structural n => n

theorem twin_statement {k : Nat} (hS : Barrier S S' k) : ∀ n n',
    Twin (Ahead S S' k) (Done S S' k) (Behind S S' k) (statement stop n) (statement stop' n')
  | 0, _ => twin_exhausted_left
  | _ + 1, 0 => twin_exhausted_right
  | n + 1, n' + 1 => by
    have expr := twin_expression hS 0 n n'
    have tail (f : Expr Unit → Stmt Unit) (e : Expr Unit) :
        Twin (Amid S S' k) (Done S S' k) (Behind S S' k) (do skipSemicolon stop; return f e)
          (do skipSemicolon stop'; return f e) :=
      (twin_skipSemicolon hS).bind fun _ => twin_pure _ fun _ _ => id
    refine twin_peek_bind hS (fun _ _ => id) fun t t' ht _ => ?_
    rw [ht]
    split
    next hv =>
      exact (twin_skip_amid hS (by simp [hv]) (by simp [hv])).bind fun _ =>
        (twin_expectIdentifier hS).bind fun name =>
        (twin_expect_amid hS (by simp) (by simp)).bind fun _ =>
        (expr.pre fun _ _ => And.left).bind (tail (.var name))
    next hv =>
      exact (twin_skip_amid hS (by simp [hv]) (by simp [hv])).bind fun _ =>
        twin_peek_bind hS (fun _ _ => And.left) fun u u' hu _ =>
        Twin.ite (by rw [hu])
          (fun _ => (tail (fun _ => .ret .nil) .nil).pre fun _ _ => And.left)
          fun _ => (expr.pre fun _ _ hc => hc.1.1).bind (tail .ret)
    next => exact (expr.pre fun _ _ => And.left).bind (tail .expr)
termination_by structural n => n

theorem twin_block {k : Nat} : ∀ n n',
    Twin (Ahead S S' (k + 1)) (Amid S S' k) (Behind S S' k) (block stop n) (block stop' n')
  | 0, _ => twin_exhausted_left
  | _ + 1, 0 => twin_exhausted_right
  | n + 1, n' + 1 => by
    refine (twin_statements (Nat.succ_ne_zero k) n n').bind fun body => ?_
    refine twin_read_facing_bind fun t t' ht ht' => ?_
    rw [if_pos ht, if_pos ht']
    exact twin_pure _ fun _ _ hc => hc.rightBrace
termination_by structural n => n

theorem twin_expression {k : Nat} (hS : Barrier S S' k) (level : Nat) : ∀ n n',
    Twin (Ahead S S' k) (Amid S S' k) (Behind S S' k) (expression stop level n)
      (expression stop' level n')
  | 0, _ => twin_exhausted_left
  | _ + 1, 0 => twin_exhausted_right
  | n + 1, n' + 1 => twin_read_bind hS fun _ _ ht => (twin_operand hS ht n n').bind fun left =>
      twin_continuation hS level left n n'
termination_by structural n => n

theorem twin_operand {k : Nat} (hS : Barrier S S' k) {t t' : Located Token}
    (ht : t'.value = t.value) : ∀ n n',
    Twin (Taken S S' k t.value) (Amid S S' k) (Behind S S' k) (operand stop t n)
      (operand stop' t' n')
  | 0, _ => twin_exhausted_left
  | _ + 1, 0 => twin_exhausted_right
  | n + 1, n' + 1 => by
    have group (level : Nat) {v : Token} (hv : t.value = v) (hbrace : v ≠ .mark .rightBrace)
        (hsemicolon : v ≠ .mark .semicolon) :
        Twin (Taken S S' k t.value) (Amid S S' k) (Behind S S' k) (expression stop level n)
          (expression stop' level n') :=
      (twin_expression hS level n n').pre fun _ _ hc =>
        (hc.amid hS (hv ▸ hbrace) fun h => absurd (hv.symm.trans h) hsemicolon).1
    have keyword {w : Keyword} (hw : t.value = .keyword w) :
        ∀ c c', Taken S S' k t.value c c' → Amid S S' k c c' := fun _ _ hc =>
      hc.amid hS (by simp [hw]) (by simp [hw])
    have openBlock : Twin (Amid S S' k) (Ahead S S' (k + 1)) (Behind S S' k)
        (expect stop .leftBrace) (expect stop' .leftBrace) :=
      twin_expect hS .leftBrace fun _ _ hc => hc.leftBrace hS
    have blocks := @twin_block k n n'
    unfold operand
    rw [ht]
    split
    next hv => exact twin_pure _ fun _ _ hc => hc.amid hS (by simp [hv]) (by simp [hv])
    next hv =>
      split
      · exact twin_pure _ fun _ _ hc => hc.amid hS (by simp [hv]) (by simp [hv])
      · exact twin_fail _ _ fun _ _ hc => hc.1
    next hv => exact twin_pure _ fun _ _ hc => hc.amid hS (by simp [hv]) (by simp [hv])
    next hv => exact twin_pure _ (keyword hv)
    next hv => exact twin_pure _ (keyword hv)
    next hv => exact twin_pure _ (keyword hv)
    next hv =>
      exact (group _ hv (by simp) (by simp)).bind fun e => twin_pure _ fun _ _ => id
    next hv =>
      exact (group _ hv (by simp) (by simp)).bind fun e => twin_pure _ fun _ _ => id
    next hv =>
      exact (group _ hv (by simp) (by simp)).bind fun e =>
        (twin_expect_amid hS (by simp) (by simp)).bind fun _ => twin_pure _ fun _ _ => id
    next hv =>
      exact ((twin_items hS .rightBracket (by simp) n n').pre fun _ _ hc =>
        hc.amid hS (by simp [hv]) (by simp [hv])).bind fun es => twin_pure _ fun _ _ => id
    next hv =>
      refine ((twin_expect_amid hS (by simp) (by simp)).pre (keyword hv)).bind fun _ =>
        ((twin_expression hS 0 n n').pre fun _ _ => And.left).bind fun condition =>
        (twin_expect_amid hS (by simp) (by simp)).bind fun _ => openBlock.bind fun _ =>
        blocks.bind fun consequence =>
        twin_peek_bind hS (fun _ _ => And.left) fun u u' hu _ => Twin.ite (by rw [hu])
          (fun hm => ?_) fun _ => twin_pure _ fun _ _ => And.left
      exact (twin_skip_amid hS (by simp [hm]) (by simp [hm])).bind fun _ =>
        openBlock.bind fun _ => blocks.bind fun alternative =>
        twin_pure _ fun _ _ => id
    next hv =>
      exact ((twin_expect_amid hS (by simp) (by simp)).pre (keyword hv)).bind fun _ =>
        (twin_parameters hS n n').bind fun params => openBlock.bind fun _ =>
        blocks.bind fun body => twin_pure _ fun _ _ => id
    next => exact twin_fail _ _ fun _ _ hc => hc.1
    next => exact twin_fail _ _ fun _ _ hc => hc.1
termination_by structural n => n

theorem twin_continuation {k : Nat} (hS : Barrier S S' k) (level : Nat) (left : Expr Unit) :
    ∀ n n', Twin (Amid S S' k) (Amid S S' k) (Behind S S' k) (continuation stop level left n)
      (continuation stop' level left n')
  | 0, _ => twin_exhausted_left
  | _ + 1, 0 => twin_exhausted_right
  | n + 1, n' + 1 => by
    refine twin_peek_bind hS (fun _ _ => And.left) fun t t' ht _ => ?_
    rw [ht]
    split
    next hv =>
      exact (twin_skip_amid hS (by simp [hv]) (by simp [hv])).bind fun _ =>
        (twin_items hS .rightParen (by simp) n n').bind fun arguments =>
        twin_continuation hS level (.call left arguments) n n'
    next hv =>
      exact (twin_skip_amid hS (by simp [hv]) (by simp [hv])).bind fun _ =>
        ((twin_expression hS 0 n n').pre fun _ _ => And.left).bind fun position =>
        (twin_expect_amid hS (by simp) (by simp)).bind fun _ =>
        twin_continuation hS level (.index left position) n n'
    next =>
      split
      next op hop =>
        have hv := InfixOp.ofToken?_eq_some_iff.1 hop
        refine Twin.ite Iff.rfl (fun _ => ?_) fun _ => twin_pure _ fun _ _ => And.left
        have hbrace : op.token ≠ .mark .rightBrace := by cases op <;> simp [InfixOp.token]
        have hsemicolon : op.token ≠ .mark .semicolon := by cases op <;> simp [InfixOp.token]
        exact (twin_skip_amid hS (hv ▸ hbrace) (hv ▸ hsemicolon)).bind fun _ =>
          ((twin_expression hS op.level n n').pre fun _ _ => And.left).bind fun right =>
          twin_continuation hS level (.infixOp op left right) n n'
      next => exact twin_pure _ fun _ _ => And.left
termination_by structural n => n

theorem twin_items {k : Nat} (hS : Barrier S S' k) (close : Mark)
    (hclose : close ∈ [Mark.rightParen, .rightBracket]) : ∀ n n',
    Twin (Amid S S' k) (Amid S S' k) (Behind S S' k) (items stop close n) (items stop' close n')
  | 0, _ => twin_exhausted_left
  | _ + 1, 0 => twin_exhausted_right
  | n + 1, n' + 1 => by
    refine twin_peek_bind hS (fun _ _ => And.left) fun t t' ht _ => Twin.ite (by rw [ht])
      (fun hm => ?_) fun _ => ?_
    · have hbrace : close ≠ .rightBrace := ne_of_mem_close hclose (by simp)
      have hsemicolon : close ≠ .semicolon := ne_of_mem_close hclose (by simp)
      exact (twin_skip_amid hS (by simp [hm, hbrace]) (by simp [hm, hsemicolon])).bind fun _ =>
        twin_pure _ fun _ _ => id
    · exact ((twin_expression hS 0 n n').pre fun _ _ hc => hc.1.1).bind fun e =>
        (twin_moreItems hS close hclose n n').bind fun es => twin_pure _ fun _ _ => id
termination_by structural n => n

theorem twin_moreItems {k : Nat} (hS : Barrier S S' k) (close : Mark)
    (hclose : close ∈ [Mark.rightParen, .rightBracket]) : ∀ n n',
    Twin (Amid S S' k) (Amid S S' k) (Behind S S' k) (moreItems stop close n)
      (moreItems stop' close n')
  | 0, _ => twin_exhausted_left
  | _ + 1, 0 => twin_exhausted_right
  | n + 1, n' + 1 => by
    refine twin_peek_bind hS (fun _ _ => And.left) fun t t' ht _ => Twin.ite (by rw [ht])
      (fun hm => ?_) fun _ => ?_
    · exact (twin_skip_amid hS (by simp [hm]) (by simp [hm])).bind fun _ =>
        ((twin_expression hS 0 n n').pre fun _ _ => And.left).bind fun e =>
        (twin_moreItems hS close hclose n n').bind fun es => twin_pure _ fun _ _ => id
    · have hbrace : close ≠ .rightBrace := ne_of_mem_close hclose (by simp)
      have hsemicolon : close ≠ .semicolon := ne_of_mem_close hclose (by simp)
      exact ((twin_expect_amid hS hbrace hsemicolon).pre fun _ _ => And.left).bind fun _ =>
        twin_pure _ fun _ _ => id
termination_by structural n => n

end

end Parse

end Scriptlet
