import Scriptlet.Proofs.Soundness

/-!
# Sentences are read

The other direction: on a row that begins with a sentence no reader fails, and what it returns is
the tree of the sentence. What follows the sentence must not go on with it. As expressions are read
in a loop over what follows an operand, the statements about them are about that loop: reading a
sentence comes to going on behind it with its tree as the left operand (`Resumes`).
-/

namespace Scriptlet

open Grammar

namespace Cursor

variable {stop : Located Token} {c : Cursor}

theorem value_next (hstop : stop.value = .eof) : (c.next stop).value = c.values.headD .eof := by
  cases hr : c.rest with
  | nil => simp [next_of_nil hr, values, hr, hstop]
  | cons t ts => simp [next_of_cons hr, values, hr]

@[simp] theorem values_advance : (c.advance stop).values = c.values.tail := by
  simp [values]

theorem value_next_of_cons {t : Token} {ts : List Token} (h : c.values = t :: ts) :
    (c.next stop).value = t := by
  have h' : c.values = [t] ++ ts := h
  exact (eq_value_next h' rfl).symm

structure Reaches (c : Cursor) (ts : List Token) (c' : Cursor) : Prop where
  values : c'.values = ts
  errors : c'.errors = c.errors

theorem Reaches.trans {ts us : List Token} {c₁ c₂ : Cursor} (h₁ : c.Reaches ts c₁)
    (h₂ : c₁.Reaches us c₂) : c.Reaches us c₂ :=
  ⟨h₂.values, h₂.errors.trans h₁.errors⟩

theorem reaches_advance {t : Token} {ts : List Token} (h : c.values = t :: ts) :
    c.Reaches ts (c.advance stop) :=
  ⟨by simp [h], rfl⟩

structure Passes (c : Cursor) (ts : List Token) (c' : Cursor) : Prop where
  values : c'.values = ts ∨ c'.last.value = .mark .semicolon ∧ ts = .mark .semicolon :: c'.values
  errors : c'.errors = c.errors

end Cursor

namespace Grammar

/-- What may follow an operand of layer `k`. -/
structure Stops (k : Nat) (rest : List Token) : Prop where
  binds : ¬ Binds k (rest.headD .eof)
  else_ : rest.headD .eof ≠ .keyword .else_

theorem Binds.mono {j k : Nat} {t : Token} (h : Binds k t) (hjk : j ≤ k) : Binds j t := by
  cases h with
  | operator h => exact .operator (Nat.lt_of_le_of_lt hjk h)
  | call => exact .call
  | index => exact .index

theorem Stops.mono {j k : Nat} {rest : List Token} (h : Stops j rest) (hjk : j ≤ k) :
    Stops k rest :=
  ⟨fun hb => h.binds (hb.mono hjk), h.else_⟩

theorem stops_operator {k : Nat} {op : InfixOp} (rest : List Token) (h : op.level ≤ k) :
    Stops k (op.token :: rest) where
  binds := not_binds (fun _ hop => token_injective hop ▸ h)
    (by cases op <;> simp [InfixOp.token]) (by cases op <;> simp [InfixOp.token])
  else_ := by cases op <;> simp [InfixOp.token]

theorem stops_mark {k : Nat} {m : Mark} (rest : List Token)
    (h : m ∈ [Mark.comma, .semicolon, .rightParen, .rightBracket, .rightBrace]) :
    Stops k (.mark m :: rest) where
  binds := by
    refine not_binds (fun op hop => ?_) ?_ ?_
    · revert h hop
      cases op <;> cases m <;> simp [InfixOp.token]
    · rintro ⟨⟩
      simp at h
    · rintro ⟨⟩
      simp at h
  else_ := by simp

theorem stops_of_endsReturn {k : Nat} {rest : List Token}
    (h : (rest.headD .eof).endsReturn = true) : Stops k rest where
  binds := by
    refine not_binds (fun op hop => ?_) (fun hop => ?_) (fun hop => ?_) <;> rw [hop] at h
    · cases op <;> cases h
    · cases h
    · cases h
  else_ h' := by
    rw [h'] at h
    cases h

theorem endsReturn_of_endsBlock {inBlock : Bool} {t : Token} (h : t.endsBlock inBlock = true) :
    t.endsReturn = true := by
  unfold Token.endsBlock at h
  split at h
  · rfl
  · rfl
  · cases h

theorem Starts.ne_else {t : Token} (h : Starts t) : t ≠ .keyword .else_ := by
  cases h with
  | prefixOp op => cases op <;> simp [PrefixOp.token]
  | _ => simp

theorem Starts.ne_var {t : Token} (h : Starts t) : t ≠ .keyword .var := by
  cases h with
  | prefixOp op => cases op <;> simp [PrefixOp.token]
  | _ => simp

theorem Starts.ne_return {t : Token} (h : Starts t) : t ≠ .keyword .return_ := by
  cases h with
  | prefixOp op => cases op <;> simp [PrefixOp.token]
  | _ => simp

theorem StartsStatement.ne_else {t : Token} (h : StartsStatement t) : t ≠ .keyword .else_ := by
  cases h with
  | expr h => exact h.ne_else
  | _ => simp

theorem StartsStatement.ne_semicolon {t : Token} (h : StartsStatement t) :
    t ≠ .mark .semicolon := by
  rintro rfl
  cases h.endsReturn_eq_false

theorem StartsStatement.endsBlock_eq_false {t : Token} (h : StartsStatement t) (inBlock : Bool) :
    t.endsBlock inBlock = false := by
  cases hb : t.endsBlock inBlock with
  | false => rfl
  | true => simpa [h.endsReturn_eq_false] using endsReturn_of_endsBlock hb

theorem Starts.ne_close {t : Token} (h : Starts t) {close : Mark}
    (hclose : close ∈ [Mark.rightParen, .rightBracket]) : t ≠ .mark close := by
  rintro rfl
  simp only [List.mem_cons, List.not_mem_nil, or_false] at hclose
  generalize ht : Token.mark close = t at h
  cases h with
  | prefixOp op => cases op <;> simp_all [PrefixOp.token]
  | _ => simp_all

/-- Behind the expression of a statement stands nothing that goes on with it. -/
theorem Ending.stops {ending rest tail : List Token} (h : Ending ending rest)
    (hrest : ∀ t ∈ rest.head?, t = .mark .semicolon ∨ StartsStatement t) (htail : Stops 0 tail) :
    Stops 0 (ending ++ (rest ++ tail)) := by
  cases h with
  | semicolon => exact stops_mark _ (by simp)
  | bare h =>
    cases rest with
    | nil => exact htail
    | cons t ts =>
      refine ⟨fun hb => h t rfl (binds_zero_iff.1 hb), ?_⟩
      rcases hrest t rfl with rfl | ht
      · simp
      · exact ht.ne_else

theorem MoreArguments.stops {ts rest : List Token} {es : List (Expr Unit)} {close : Mark}
    (h : MoreArguments ts es) (hclose : close ∈ [Mark.rightParen, .rightBracket]) (k : Nat) :
    Stops k (ts ++ .mark close :: rest) := by
  cases h with
  | nil =>
    refine stops_mark rest ?_
    simp only [List.mem_cons, List.not_mem_nil, or_false] at hclose
    rcases hclose with rfl | rfl <;> simp
  | cons => exact stops_mark _ (by simp)

end Grammar

namespace Parse

open Cursor

variable {stop : Located Token}

/-- A reader does not fail, and if the fuel suffices it ends so. -/
def Accepts {α : Type} (p : Parse α) (c : Cursor) (Q : α → Cursor → Prop) : Prop :=
  p.wp c Q (fun _ _ => False)

theorem Accepts.mono {α : Type} {p : Parse α} {c : Cursor} {Q Q' : α → Cursor → Prop}
    (h : p.Accepts c Q) (hQ : ∀ a c', Q a c' → Q' a c') : p.Accepts c Q' :=
  wp_mono h hQ fun _ _ => id

theorem Accepts.bind {α β : Type} {p : Parse β} {next : β → Parse α} {c : Cursor}
    {Q : α → Cursor → Prop} {R : β → Cursor → Prop} (h : p.Accepts c R)
    (hn : ∀ b c', R b c' → (next b).Accepts c' Q) : (p >>= next).Accepts c Q :=
  (wp_bind p next).2 (h.mono hn)

/-- A mark that comes next is read where it is expected. -/
theorem accepts_expect {α : Type} {m : Mark} {next : Unit → Parse α} {c : Cursor}
    {ts : List Token} {Q : α → Cursor → Prop} (hc : c.values = .mark m :: ts)
    (h : c.Reaches ts (c.advance stop) → (next ()).Accepts (c.advance stop) Q) :
    (expect stop m >>= next).Accepts c Q := by
  rw [Accepts, wp_bind, wp_expect, if_pos (value_next_of_cons hc)]
  exact h (reaches_advance hc)

theorem accepts_expectIdentifier {α : Type} {name : String} {next : String → Parse α} {c : Cursor}
    {ts : List Token} {Q : α → Cursor → Prop} (hc : c.values = .identifier name :: ts)
    (h : c.Reaches ts (c.advance stop) → (next name).Accepts (c.advance stop) Q) :
    (expectIdentifier stop >>= next).Accepts c Q := by
  rw [Accepts, wp_bind, wp_expectIdentifier, value_next_of_cons hc]
  exact h (reaches_advance hc)

theorem accepts_continuation_of_stops (hstop : stop.value = .eof) {level n : Nat} {e : Expr Unit}
    {c : Cursor} {Q : Expr Unit → Cursor → Prop} (h : Stops level c.values) (hQ : Q e c) :
    (continuation stop level e n).Accepts c Q := by
  rcases n with _ | n
  · exact wp_exhausted
  have hb := h.binds
  rw [← value_next (c := c) hstop] at hb
  simp only [Accepts, continuation, wp_bind, wp_peek]
  split
  next ht => exact absurd (ht ▸ .call) hb
  next ht => exact absurd (ht ▸ .index) hb
  next =>
    split
    next op hop =>
      rw [InfixOp.ofToken?_eq_some_iff.1 hop] at hb
      rw [if_neg fun h => hb (.operator h)]
      exact hQ
    next => exact hQ

def Resumes (stop : Located Token) (level n : Nat) (c : Cursor) (rest : List Token)
    (e : Expr Unit) : Prop :=
  ∀ Q : Expr Unit → Cursor → Prop,
    (∀ n' c', c.Reaches rest c' → (continuation stop level e n').Accepts c' Q) →
    (expression stop level n).Accepts c Q

theorem Resumes.accepts (hstop : stop.value = .eof) {level n : Nat} {c : Cursor}
    {rest : List Token} {e : Expr Unit} (h : Resumes stop level n c rest e)
    (hrest : Stops level rest) :
    (expression stop level n).Accepts c fun e' c' => e' = e ∧ c.Reaches rest c' :=
  h _ fun _ _ hr => accepts_continuation_of_stops hstop (hr.values ▸ hrest) ⟨rfl, hr⟩

theorem accepts_moreParameters (hstop : stop.value = .eof) {rest : List Token}
    (names : List String) (n : Nat) (c : Cursor)
    (hc : c.values = (names.flatMap fun name => [Token.mark .comma, .identifier name]) ++
      .mark .rightParen :: rest) :
    (moreParameters stop n).Accepts c fun names' c' => names' = names ∧ c.Reaches rest c' := by
  induction names generalizing n c with
  | nil =>
    rcases n with _ | n
    · exact wp_exhausted
    have ht : (c.next stop).value = .mark .rightParen := by simp [value_next hstop, hc]
    simp only [Accepts, moreParameters, wp_bind, wp_peek]
    rw [if_neg (by simp [ht])]
    exact accepts_expect hc fun hr => ⟨rfl, hr⟩
  | cons name names ih =>
    rcases n with _ | n
    · exact wp_exhausted
    have ht : (c.next stop).value = .mark .comma := by simp [value_next hstop, hc]
    simp only [Accepts, moreParameters, wp_bind, wp_peek]
    rw [if_pos ht, wp_bind, wp_skip]
    refine accepts_expectIdentifier (reaches_advance hc).values fun h₁ => ?_
    refine (ih n _ h₁.values).bind fun names' c' hread => ?_
    obtain ⟨hnames, hr⟩ := hread
    exact ⟨hnames ▸ rfl, hr.values, hr.errors⟩

theorem accepts_parameters (hstop : stop.value = .eof) {rest : List Token}
    (names : List String) (n : Nat) (c : Cursor)
    (hc : c.values = parameterTokens names ++ .mark .rightParen :: rest) :
    (parameters stop n).Accepts c fun names' c' => names' = names ∧ c.Reaches rest c' := by
  simp only [Accepts, parameters, wp_bind, wp_peek]
  cases names with
  | nil =>
    have ht : (c.next stop).value = .mark .rightParen := by
      simp [value_next hstop, hc, parameterTokens]
    rw [if_pos ht, wp_bind, wp_skip]
    exact ⟨rfl, by simp [hc, parameterTokens], rfl⟩
  | cons name names =>
    rw [parameterTokens_cons] at hc
    rw [if_neg (by simp [value_next_of_cons hc])]
    refine accepts_expectIdentifier hc fun h₁ => ?_
    exact (accepts_moreParameters hstop names n _ h₁.values).bind
      fun names' c' ⟨hnames, hr⟩ => ⟨hnames ▸ rfl, h₁.trans hr⟩

/-- The semicolon behind a statement may be one that the grammar counts with what follows. -/
theorem accepts_ending (hstop : stop.value = .eof) {ending rest us : List Token} (s : Stmt Unit)
    (h : Ending ending rest) {c : Cursor} (hc : c.values = ending ++ us) :
    (do skipSemicolon stop; return s : Parse (Stmt Unit)).Accepts c fun s' c' =>
      s' = s ∧ c.Passes us c' := by
  rw [Accepts, wp_bind, wp_skipSemicolon]
  cases h with
  | semicolon =>
    rw [if_pos (value_next_of_cons hc)]
    exact ⟨rfl, .inl (by simp [hc]), rfl⟩
  | bare =>
    split
    next ht =>
      have h₁ := values_eq_cons (c := c) hstop (by simp [ht])
      exact ⟨rfl, .inr ⟨ht, by rw [← List.nil_append us, ← hc, h₁, ht]⟩, rfl⟩
    next => exact ⟨rfl, .inl hc, rfl⟩

/-- A statement that ends with an expression is read up to what follows it. -/
theorem accepts_ended (hstop : stop.value = .eof) (f : Expr Unit → Stmt Unit) {n : Nat}
    {c : Cursor} {e : Expr Unit} {ending rest us : List Token} (hend : Ending ending rest)
    (hstops : Stops 0 (ending ++ us)) (h : Resumes stop 0 n c (ending ++ us) e) :
    (do
      let e ← expression stop 0 n
      skipSemicolon stop
      return f e : Parse (Stmt Unit)).Accepts c fun s c' => s = f e ∧ c.Passes us c' := by
  refine (h.accepts hstop hstops).bind fun e' c₁ ⟨he, hr⟩ => ?_
  exact (accepts_ending hstop (f e') hend hr.values).mono
    fun s c' ⟨hs, hr'⟩ => ⟨he ▸ hs, hr'.values, hr'.errors.trans hr.errors⟩

theorem wp_statements_semicolon {inBlock : Bool} {n : Nat} {c : Cursor}
    {Q : Program → Cursor → Prop} {E : ParseError → Cursor → Prop}
    (ht : (c.next stop).value = .mark .semicolon) :
    (statements stop inBlock (n + 1)).wp c Q E ↔
      (statements stop inBlock n).wp (c.advance stop) Q E := by
  simp only [statements, wp_bind, wp_peek]
  rw [if_neg (by simp [ht, Token.endsBlock]), if_pos ht, wp_bind, wp_skip]

/-- A malformed statement is skipped, and other statements are read in any case. -/
theorem wp_statements_statement {inBlock : Bool} {n : Nat} {c : Cursor}
    {Q : Program → Cursor → Prop} {E : ParseError → Cursor → Prop}
    (hend : (c.next stop).value.endsBlock inBlock = false)
    (ht : (c.next stop).value ≠ .mark .semicolon) :
    (statements stop inBlock (n + 1)).wp c Q E ↔
      (statement stop n).wp c
        (fun s c' => (statements stop inBlock n).wp c' (fun p c'' => Q (s :: p) c'') E)
        fun e c' => (statements stop inBlock n).wp ⟨c'.last, c'.recovered inBlock, e :: c'.errors⟩
          Q E := by
  simp only [statements, wp_bind, wp_peek]
  rw [if_neg (by simp [hend]), if_neg ht, wp_bind, wp_attempt]
  simp only [wp_bind, wp_recover, wp_pure]

def Proceeds (stop : Located Token) (inBlock : Bool) (n : Nat) (c : Cursor) (rest : List Token)
    (p : Program) : Prop :=
  ∀ (Q : Program → Cursor → Prop) (E : ParseError → Cursor → Prop),
    (∀ n' c', c.Reaches rest c' →
      (statements stop inBlock n').wp c' (fun p' c'' => Q (p ++ p') c'') E) →
    (statements stop inBlock n).wp c Q E

theorem Proceeds.accepts (hstop : stop.value = .eof) {inBlock : Bool} {n : Nat} {c : Cursor}
    {rest : List Token} {p : Program} (h : Proceeds stop inBlock n c rest p)
    (hrest : (rest.headD .eof).endsBlock inBlock = true) :
    (statements stop inBlock n).Accepts c fun p' c' => p' = p ∧ c.Reaches rest c' := by
  refine h _ _ fun n' c' hr => ?_
  rcases n' with _ | n'
  · exact wp_exhausted
  simp only [statements, wp_bind, wp_peek]
  rw [if_pos (by rwa [value_next hstop, hr.values])]
  exact ⟨List.append_nil p, hr⟩

theorem endsReturn_rightBrace (rest : List Token) :
    ((.mark .rightBrace :: rest).headD .eof).endsReturn = true := rfl

theorem accepts_block (hstop : stop.value = .eof) {n : Nat} {c : Cursor} {b : Program}
    {rest : List Token} (h : ∀ m, Proceeds stop true m c (.mark .rightBrace :: rest) b) :
    (block stop n).Accepts c fun p c' => p = b ∧ c.Reaches rest c' := by
  rcases n with _ | n
  · exact wp_exhausted
  refine ((h n).accepts hstop rfl).bind fun p c₁ ⟨hp, hr⟩ => ?_
  rw [Accepts, wp_bind, wp_read, if_pos (value_next_of_cons hr.values)]
  exact ⟨hp, hr.trans (reaches_advance hr.values)⟩

/-- Statements between braces. -/
theorem accepts_braces {α : Type} (hstop : stop.value = .eof) {n : Nat} {c : Cursor} {b : Program}
    {us rest : List Token} {next : Program → Parse α} {Q : α → Cursor → Prop}
    (hc : c.values = braces us ++ rest)
    (hb : ∀ m a, a.values = us ++ .mark .rightBrace :: rest →
      Proceeds stop true m a (.mark .rightBrace :: rest) b)
    (hn : ∀ c', c.Reaches rest c' → (next b).Accepts c' Q) :
    (do
      expect stop .leftBrace
      let p ← block stop n
      next p).Accepts c Q := by
  have hc : c.values = .mark .leftBrace :: (us ++ .mark .rightBrace :: rest) := by
    simpa [braces, enclosed] using hc
  refine accepts_expect hc fun h₁ => ?_
  refine (accepts_block hstop fun m => hb m _ h₁.values).bind fun p c' hread => ?_
  obtain ⟨rfl, hr⟩ := hread
  exact hn c' (h₁.trans hr)

/-- The condition and the first branch of a conditional, behind its keyword. -/
theorem accepts_branch {α : Type} (hstop : stop.value = .eof) {n : Nat} {c : Cursor}
    {e : Expr Unit} {b : Program} {cs us rest : List Token} {next : Expr Unit → Program → Parse α}
    {Q : α → Cursor → Prop} (hc : c.values = parens cs ++ braces us ++ rest)
    (he : ∀ a, a.values = cs ++ .mark .rightParen :: (braces us ++ rest) →
      Resumes stop 0 n a (.mark .rightParen :: (braces us ++ rest)) e)
    (hb : ∀ m a, a.values = us ++ .mark .rightBrace :: rest →
      Proceeds stop true m a (.mark .rightBrace :: rest) b)
    (hn : ∀ c', c.Reaches rest c' → (next e b).Accepts c' Q) :
    (do
      expect stop .leftParen
      let e ← expression stop 0 n
      expect stop .rightParen
      expect stop .leftBrace
      let p ← block stop n
      next e p).Accepts c Q := by
  have hc : c.values = .mark .leftParen :: (cs ++ .mark .rightParen :: (braces us ++ rest)) := by
    simpa [parens, enclosed] using hc
  refine accepts_expect hc fun h₁ => ?_
  refine ((he _ h₁.values).accepts hstop (stops_mark _ (by simp))).bind fun e' c₁ ⟨he', h₂⟩ => ?_
  refine accepts_expect h₂.values fun h₃ => accepts_braces hstop h₃.values hb fun c' hr => ?_
  exact he' ▸ hn c' (h₁.trans (h₂.trans (h₃.trans hr)))

/-! ## The categories, one by one -/

mutual

theorem proceeds_statements (hstop : stop.value = .eof) (inBlock : Bool) {ts rest : List Token}
    {p : Program} (hrest : (rest.headD .eof).endsReturn = true) :
    Statements ts p → ∀ (n : Nat) (c : Cursor), c.values = ts ++ rest →
      Proceeds stop inBlock n c rest p
  | .nil, n, c, hc => fun _ _ hQ => hQ n c ⟨hc, rfl⟩
  | _, 0, _, _ => fun _ _ _ => wp_exhausted
  | .semicolon h, n + 1, c, hc => by
    intro Q E hQ
    rw [wp_statements_semicolon (value_next_of_cons hc)]
    refine proceeds_statements hstop inBlock hrest h n _ (by simp [hc]) Q E fun n' c' hr => ?_
    exact hQ n' c' ((reaches_advance hc).trans hr)
  | @Statements.cons _ _ s p hs hp, n + 1, c, hc => by
    intro Q E hQ
    obtain ⟨t, us, hts, hstart⟩ := hs.starts
    have ht : (c.next stop).value = t := by simp [value_next hstop, hc, hts]
    rw [wp_statements_statement (ht ▸ hstart.endsBlock_eq_false inBlock)
      (ht ▸ hstart.ne_semicolon)]
    refine wp_mono (accepts_statement hstop hp.starts (stops_of_endsReturn hrest) hrest hs n c
      (by simpa using hc)) (fun s' c₁ ⟨hs, hr⟩ => ?_) (fun _ _ => False.elim)
    subst hs
    have hnext : ∀ n' c', c₁.Reaches _ c' → (statements stop inBlock n').wp c'
        (fun p' c'' => Q (s' :: (p ++ p')) c'') E := fun n' c' hr' =>
      hQ n' c' ⟨hr'.values, hr'.errors.trans hr.errors⟩
    obtain hvalues | ⟨hlast, hvalues⟩ := hr.values
    · exact proceeds_statements hstop inBlock hrest hp n c₁ hvalues _ E hnext
    · -- the statement has taken a semicolon of the rest, so the rest is read from in front of it
      let c₀ : Cursor := ⟨c₁.last, c₁.last :: c₁.rest, c₁.errors⟩
      have h := proceeds_statements hstop inBlock hrest hp (n + 1) c₀
        (by simp [c₀, hvalues, Cursor.values, hlast])
        (fun p' c'' => Q (s' :: p') c'') E fun n' c' hr' => hnext n' c' ⟨hr'.values, hr'.errors⟩
      rwa [wp_statements_semicolon (c := c₀) hlast] at h

theorem accepts_statement (hstop : stop.value = .eof) {ts rest tail : List Token} {s : Stmt Unit}
    (hrest : ∀ t ∈ rest.head?, t = .mark .semicolon ∨ StartsStatement t) (htail : Stops 0 tail)
    (hreturn : (tail.headD .eof).endsReturn = true) :
    Statement ts s rest → ∀ (n : Nat) (c : Cursor), c.values = ts ++ (rest ++ tail) →
      (statement stop n).Accepts c fun s' c' => s' = s ∧ c.Passes (rest ++ tail) c'
  | _, 0, _, _ => wp_exhausted
  | @Statement.var name _ e _ _ he hend, n + 1, c, hc => by
    have ht : (c.next stop).value = .keyword .var := value_next_of_cons hc
    rw [Accepts, statement, wp_bind, wp_peek]
    simp only [ht]
    rw [wp_bind, wp_skip]
    refine accepts_expectIdentifier (reaches_advance hc).values fun h₁ => ?_
    refine accepts_expect h₁.values fun h₂ => ?_
    have hstops := hend.stops hrest htail
    refine (accepts_ended hstop (.var name) hend hstops (accepts_binary hstop
      (hstops.mono (Nat.zero_le _)) he n 0 _ (Nat.le_refl _) (by simp [h₂.values]))).mono
      fun s' c' ⟨hs, hr⟩ => ⟨hs, hr.values, hr.errors⟩
  | .ret (e := e) he hend, n + 1, c, hc => by
    obtain ⟨t, us, hts, hstart⟩ := he.starts
    have ht : (c.next stop).value = .keyword .return_ := value_next_of_cons hc
    have hnext : ((c.advance stop).next stop).value = t := by simp [value_next hstop, hc, hts]
    rw [Accepts, statement, wp_bind, wp_peek]
    simp only [ht]
    rw [wp_bind, wp_skip, wp_bind, wp_peek,
      if_neg (by simp [hnext, hstart.endsReturn_eq_false])]
    have hstops := hend.stops hrest htail
    refine (accepts_ended hstop .ret hend hstops (accepts_binary hstop
      (hstops.mono (Nat.zero_le _)) he n 0 _ (Nat.le_refl _) (by simp [hc]))).mono
      fun s' c' ⟨hs, hr⟩ => ⟨hs, hr.values, hr.errors⟩
  | .retNil h, n + 1, c, hc => by
    have ht : (c.next stop).value = .keyword .return_ := value_next_of_cons hc
    rw [Accepts, statement, wp_bind, wp_peek]
    simp only [ht]
    rw [wp_bind, wp_skip, wp_bind, wp_peek, if_pos ?ends]
    case ends =>
      rw [value_next hstop, values_advance, hc]
      cases rest with
      | nil => exact hreturn
      | cons t ts =>
        obtain rfl := h t rfl
        rfl
    have hend : (c.advance stop).values = [] ++ (rest ++ tail) := by simp [hc]
    have hbare : Ending [] rest := .bare fun t ht hn => by
      obtain rfl := h t ht
      exact (stops_mark [] (by simp)).binds (binds_zero_iff.2 hn)
    exact (accepts_ending hstop (.ret .nil) hbare hend).mono
      fun s' c' ⟨hs, hr⟩ => ⟨hs, hr.values, hr.errors⟩
  | .retNilSemicolon, n + 1, c, hc => by
    have ht : (c.next stop).value = .keyword .return_ := value_next_of_cons hc
    have hsemi : ((c.advance stop).next stop).value = .mark .semicolon := by
      simp [value_next hstop, hc]
    rw [Accepts, statement, wp_bind, wp_peek]
    simp only [ht]
    rw [wp_bind, wp_skip, wp_bind, wp_peek, if_pos (by simp [hsemi, Token.endsReturn])]
    have hend : (c.advance stop).values = [.mark .semicolon] ++ (rest ++ tail) := by simp [hc]
    exact (accepts_ending hstop (.ret .nil) (.semicolon rest) hend).mono
      fun s' c' ⟨hs, hr⟩ => ⟨hs, hr.values, hr.errors⟩
  | .expr he hend, n + 1, c, hc => by
    obtain ⟨t, us, hts, hstart⟩ := he.starts
    have ht : (c.next stop).value = t := by simp [value_next hstop, hc, hts]
    have hstops := hend.stops hrest htail
    have hended := accepts_ended hstop .expr hend hstops (accepts_binary hstop
      (hstops.mono (Nat.zero_le _)) he n 0 c (Nat.le_refl _) (by simpa using hc))
    rw [Accepts, statement, wp_bind, wp_peek]
    split
    next ht' => exact absurd (ht.symm.trans ht') hstart.ne_var
    next ht' => exact absurd (ht.symm.trans ht') hstart.ne_return
    next => exact hended

theorem accepts_binary (hstop : stop.value = .eof) {k : Nat} {ts rest : List Token}
    {e : Expr Unit} (hrest : Stops (k + 1) rest) : Binary k ts e →
    ∀ (n level : Nat) (c : Cursor), level ≤ k → c.values = ts ++ rest →
      Resumes stop level n c rest e
  | @Binary.infixOp _ op _ us _ _ hop hl hr, n, level, c, hlevel, hc => by
    intro Q hQ
    have hop := mem_layer_iff.1 hop
    refine accepts_binary hstop (stops_operator (us ++ rest) (Nat.le_of_eq hop)) hl n level c
      hlevel (by simpa using hc) _ fun n' c₁ h₁ => ?_
    rcases n' with _ | n'
    · exact wp_exhausted
    have ht : (c₁.next stop).value = op.token := value_next_of_cons h₁.values
    have hlt : level < op.level := by omega
    simp only [Accepts, continuation, wp_bind, wp_peek]
    split
    next h' => cases op <;> simp [ht, InfixOp.token] at h'
    next h' => cases op <;> simp [ht, InfixOp.token] at h'
    next =>
      simp only [InfixOp.ofToken?_eq_some_iff.2 ht]
      rw [if_pos hlt, wp_bind, wp_skip, wp_bind]
      refine ((accepts_binary hstop (hrest.mono (Nat.le_succ _)) hr n' op.level
        (c₁.advance stop) (Nat.le_of_eq hop) (by simp [h₁.values])).accepts hstop
        (hop ▸ hrest)).mono fun right c₂ ⟨hright, h₂⟩ => hright ▸ hQ n' c₂ ?_
      exact ⟨h₂.values, h₂.errors.trans h₁.errors⟩
  | .tighter hk h, n, level, c, hlevel, hc =>
    accepts_binary hstop (hrest.mono (Nat.le_succ _)) h n level c (Nat.le_succ_of_le hlevel) hc
  | .unary h, n, level, c, hlevel, hc => accepts_unary hstop hrest h n level c hc

theorem accepts_unary (hstop : stop.value = .eof) {ts rest : List Token} {e : Expr Unit}
    (hrest : Stops PrefixOp.level rest) : Unary ts e →
    ∀ (n level : Nat) (c : Cursor), c.values = ts ++ rest → Resumes stop level n c rest e
  | @Unary.prefixOp op _ inner h, n, level, c, hc => by
    intro Q hQ
    rcases n with _ | _ | n
    · exact wp_exhausted
    · simp only [Accepts, expression, wp_bind, operand, wp_exhausted, wp_read]
    have hoperand : (operand stop (c.next stop) (n + 1)).Accepts (c.advance stop)
        fun e' c' => e' = .prefixOp op inner ∧ c.Reaches rest c' := by
      have h₁ := (accepts_unary hstop hrest h n PrefixOp.level (c.advance stop)
        (by simp [hc])).accepts hstop hrest
      have ht : (c.next stop).value = op.token := value_next_of_cons hc
      cases op <;>
      · simp only [operand, ht, PrefixOp.token]
        rw [Accepts, wp_bind]
        exact h₁.mono fun e' c' ⟨he, hr⟩ => ⟨he ▸ rfl, hr.values, hr.errors⟩
    simp only [Accepts, expression, wp_bind, wp_read]
    exact hoperand.mono fun e' c' ⟨he, hr⟩ => he ▸ hQ (n + 1) c' hr
  | .suffixed h, n, level, c, hc => accepts_suffixed hstop hrest.else_ h n level c hc

theorem accepts_suffixed (hstop : stop.value = .eof) {ts rest : List Token} {e : Expr Unit}
    (hrest : rest.headD .eof ≠ .keyword .else_) : Suffixed ts e →
    ∀ (n level : Nat) (c : Cursor), c.values = ts ++ rest → Resumes stop level n c rest e
  | .primary h, n, level, c, hc => by
    intro Q hQ
    rcases n with _ | n
    · exact wp_exhausted
    obtain ⟨t, us, hts, -⟩ := h.starts
    simp only [Accepts, expression, wp_bind, wp_read]
    refine (accepts_primary hstop hrest h n (c.advance stop) (c.next stop)
      (by simp [value_next hstop, hc, hts])).mono fun e' c' ⟨he, hr⟩ => he ▸ hQ n c' ?_
    exact ⟨hr.values, hr.errors⟩
  | @Suffixed.call ts us _ _ hf hargs, n, level, c, hc => by
    intro Q hQ
    have hparens : (parens us ++ rest).headD .eof ≠ .keyword .else_ := by simp [parens, enclosed]
    refine accepts_suffixed hstop hparens hf n level c (by simpa using hc) _ fun n' c₁ h₁ => ?_
    rcases n' with _ | n'
    · exact wp_exhausted
    have hc₁ : c₁.values = .mark .leftParen :: (us ++ .mark .rightParen :: rest) := by
      simpa [parens, enclosed] using h₁.values
    have h₂ : c₁.Reaches _ (c₁.advance stop) := reaches_advance hc₁
    simp only [Accepts, continuation, wp_bind, wp_peek, value_next_of_cons hc₁]
    rw [wp_skip]
    exact (accepts_arguments hstop (by simp) hargs n' _ h₂.values).mono
      fun args c₂ ⟨hargs, h₃⟩ => hargs ▸ hQ n' c₂ (h₁.trans (h₂.trans h₃))
  | @Suffixed.index ts us _ _ ht hp, n, level, c, hc => by
    intro Q hQ
    have hbrackets : (brackets us ++ rest).headD .eof ≠ .keyword .else_ := by
      simp [brackets, enclosed]
    refine accepts_suffixed hstop hbrackets ht n level c (by simpa using hc) _ fun n' c₁ h₁ => ?_
    rcases n' with _ | n'
    · exact wp_exhausted
    have hc₁ : c₁.values = .mark .leftBracket :: (us ++ .mark .rightBracket :: rest) := by
      simpa [brackets, enclosed] using h₁.values
    have h₂ : c₁.Reaches _ (c₁.advance stop) := reaches_advance hc₁
    rw [Accepts, continuation, wp_bind, wp_peek]
    simp only [value_next_of_cons hc₁]
    rw [wp_bind, wp_skip]
    refine ((accepts_binary hstop (stops_mark rest (by simp)) hp n' 0 _ (Nat.le_refl _)
      h₂.values).accepts hstop (stops_mark rest (by simp))).bind
      fun position c₂ ⟨hposition, h₃⟩ => accepts_expect h₃.values fun h₄ => ?_
    exact hposition ▸ hQ n' _ (h₁.trans (h₂.trans (h₃.trans h₄)))

theorem accepts_primary (hstop : stop.value = .eof) {ts rest : List Token} {e : Expr Unit}
    (hrest : rest.headD .eof ≠ .keyword .else_) : Primary ts e →
    ∀ (n : Nat) (c : Cursor) (t : Located Token), t.value :: c.values = ts ++ rest →
      (operand stop t n).Accepts c fun e' c' => e' = e ∧ c.Reaches rest c'
  | _, 0, _, _, _ => wp_exhausted
  | .ident, n + 1, c, t, hc => by
    obtain ⟨ht, hc⟩ : t.value = _ ∧ c.values = rest := by simpa using hc
    simp only [operand, ht]
    exact ⟨rfl, hc, rfl⟩
  | .int h, n + 1, c, t, hc => by
    obtain ⟨ht, hc⟩ : t.value = _ ∧ c.values = rest := by simpa using hc
    simp only [operand, ht, integerLiteral?_eq_some_iff.2 ⟨h, rfl⟩]
    exact ⟨rfl, hc, rfl⟩
  | .str, n + 1, c, t, hc => by
    obtain ⟨ht, hc⟩ : t.value = _ ∧ c.values = rest := by simpa using hc
    simp only [operand, ht]
    exact ⟨rfl, hc, rfl⟩
  | .true_, n + 1, c, t, hc => by
    obtain ⟨ht, hc⟩ : t.value = _ ∧ c.values = rest := by simpa using hc
    simp only [operand, ht]
    exact ⟨rfl, hc, rfl⟩
  | .false_, n + 1, c, t, hc => by
    obtain ⟨ht, hc⟩ : t.value = _ ∧ c.values = rest := by simpa using hc
    simp only [operand, ht]
    exact ⟨rfl, hc, rfl⟩
  | .nil, n + 1, c, t, hc => by
    obtain ⟨ht, hc⟩ : t.value = _ ∧ c.values = rest := by simpa using hc
    simp only [operand, ht]
    exact ⟨rfl, hc, rfl⟩
  | @Primary.group us _ h, n + 1, c, t, hc => by
    obtain ⟨ht, hc⟩ : t.value = .mark .leftParen ∧
        c.values = us ++ .mark .rightParen :: rest := by
      simpa [parens, enclosed] using hc
    simp only [operand, ht]
    refine ((accepts_binary hstop (stops_mark rest (by simp)) h n 0 c (Nat.le_refl _) hc).accepts
      hstop (stops_mark rest (by simp))).bind fun e' c₁ ⟨he, hr⟩ => ?_
    exact accepts_expect hr.values fun h₁ => ⟨he, hr.trans h₁⟩
  | @Primary.list us _ h, n + 1, c, t, hc => by
    obtain ⟨ht, hc⟩ : t.value = .mark .leftBracket ∧
        c.values = us ++ .mark .rightBracket :: rest := by
      simpa [brackets, enclosed] using hc
    simp only [operand, ht]
    exact (accepts_arguments hstop (by simp) h n c hc).bind
      fun es c' ⟨hes, hr⟩ => ⟨by rw [hes], hr⟩
  | @Primary.cond cs us _ _ hcond hb, n + 1, c, t, hc => by
    obtain ⟨ht, hc⟩ : t.value = .keyword .if_ ∧ c.values = parens cs ++ braces us ++ rest := by
      simpa using hc
    simp only [operand, ht]
    refine accepts_branch hstop hc
      (fun a ha => accepts_binary hstop (stops_mark _ (by simp)) hcond n 0 a (Nat.le_refl _) ha)
      (fun m a ha => proceeds_statements hstop true (endsReturn_rightBrace _) hb m a ha)
      fun c₁ h₁ => ?_
    rw [Accepts, wp_bind, wp_peek, if_neg (by rwa [value_next hstop, h₁.values])]
    exact ⟨rfl, h₁⟩
  | @Primary.condElse cs us vs _ _ _ hcond hb hb', n + 1, c, t, hc => by
    obtain ⟨ht, hc⟩ : t.value = .keyword .if_ ∧
        c.values = parens cs ++ braces us ++ .keyword .else_ :: (braces vs ++ rest) := by
      simpa using hc
    simp only [operand, ht]
    refine accepts_branch hstop hc
      (fun a ha => accepts_binary hstop (stops_mark _ (by simp)) hcond n 0 a (Nat.le_refl _) ha)
      (fun m a ha => proceeds_statements hstop true (endsReturn_rightBrace _) hb m a ha)
      fun c₁ h₁ => ?_
    rw [Accepts, wp_bind, wp_peek, if_pos (value_next_of_cons h₁.values), wp_bind, wp_skip]
    have h₂ : c₁.Reaches _ (c₁.advance stop) := reaches_advance h₁.values
    exact accepts_braces hstop h₂.values
      (fun m a ha => proceeds_statements hstop true (endsReturn_rightBrace _) hb' m a ha)
      fun c' hr => ⟨rfl, h₁.trans (h₂.trans hr)⟩
  | @Primary.func params us _ hb, n + 1, c, t, hc => by
    obtain ⟨ht, hc⟩ : t.value = .keyword .func ∧ c.values = .mark .leftParen ::
        (parameterTokens params ++ .mark .rightParen :: (braces us ++ rest)) := by
      simpa [parens, enclosed] using hc
    simp only [operand, ht]
    refine accepts_expect hc fun h₁ => ?_
    refine (accepts_parameters hstop params n _ h₁.values).bind fun names c₁ ⟨hnames, h₂⟩ => ?_
    exact accepts_braces hstop h₂.values
      (fun m a ha => proceeds_statements hstop true (endsReturn_rightBrace _) hb m a ha)
      fun c' hr => ⟨by rw [hnames], h₁.trans (h₂.trans hr)⟩

theorem accepts_arguments (hstop : stop.value = .eof) {ts rest : List Token}
    {es : List (Expr Unit)} {close : Mark} (hclose : close ∈ [Mark.rightParen, .rightBracket]) :
    Arguments ts es → ∀ (n : Nat) (c : Cursor), c.values = ts ++ .mark close :: rest →
      (items stop close n).Accepts c fun es' c' => es' = es ∧ c.Reaches rest c'
  | _, 0, _, _ => wp_exhausted
  | .nil, n + 1, c, hc => by
    simp only [Accepts, items, wp_bind, wp_peek]
    rw [if_pos (value_next_of_cons hc), wp_bind, wp_skip]
    exact ⟨rfl, reaches_advance hc⟩
  | @Arguments.cons _ us _ _ he hes, n + 1, c, hc => by
    obtain ⟨t, ts', hts, hstart⟩ := he.starts
    have ht : (c.next stop).value = t := by simp [value_next hstop, hc, hts]
    have hstops : ∀ k, Stops k (us ++ .mark close :: rest) := fun k => hes.stops hclose k
    simp only [Accepts, items, wp_bind, wp_peek]
    rw [if_neg (ht ▸ hstart.ne_close hclose)]
    refine ((accepts_binary hstop (hstops _) he n 0 c (Nat.le_refl _)
      (by simpa using hc)).accepts hstop (hstops _)).bind fun e' c₁ ⟨he, h₁⟩ => ?_
    exact (accepts_moreArguments hstop hclose hes n c₁ h₁.values).bind
      fun es' c' ⟨hes, h₂⟩ => ⟨by rw [he, hes], h₁.trans h₂⟩

theorem accepts_moreArguments (hstop : stop.value = .eof) {ts rest : List Token}
    {es : List (Expr Unit)} {close : Mark} (hclose : close ∈ [Mark.rightParen, .rightBracket]) :
    MoreArguments ts es → ∀ (n : Nat) (c : Cursor), c.values = ts ++ .mark close :: rest →
      (moreItems stop close n).Accepts c fun es' c' => es' = es ∧ c.Reaches rest c'
  | _, 0, _, _ => wp_exhausted
  | .nil, n + 1, c, hc => by
    have ht : (c.next stop).value = .mark close := value_next_of_cons hc
    have hne : close ≠ .comma := by
      rintro rfl
      simp at hclose
    simp only [Accepts, moreItems, wp_bind, wp_peek]
    rw [if_neg (by simp [ht, hne])]
    exact accepts_expect hc fun hr => ⟨rfl, hr⟩
  | @MoreArguments.cons _ us _ _ he hes, n + 1, c, hc => by
    have ht : (c.next stop).value = .mark .comma := value_next_of_cons hc
    have hstops : ∀ k, Stops k (us ++ .mark close :: rest) := fun k => hes.stops hclose k
    simp only [Accepts, moreItems, wp_bind, wp_peek]
    rw [if_pos ht, wp_bind, wp_skip]
    refine ((accepts_binary hstop (hstops _) he n 0 (c.advance stop) (Nat.le_refl _)
      (by simp [hc])).accepts hstop (hstops _)).bind fun e' c₁ ⟨he, h₁⟩ => ?_
    exact (accepts_moreArguments hstop hclose hes n c₁ h₁.values).bind
      fun es' c' ⟨hes, h₂⟩ => ⟨by rw [he, hes], h₂.values, h₂.errors.trans h₁.errors⟩

end

end Parse

end Scriptlet
