import Scriptlet.Proofs.Progress
import Scriptlet.Proofs.Sentences

/-!
# What is read without errors is a sentence

Each reader takes a row of tokens off the front that the grammar derives, with the tree that it
returns. Errors inside blocks are recorded and do not stop a reader, so the statements are about
readers that end with no error recorded (`Cursor.Derives`).

The operators need an invariant. What has been read so far is a sentence of some layer, and the next
token does not bind tighter than that layer (`Open`), so an operator that comes next finds a left
operand of its own layer.
-/

namespace Scriptlet

open Grammar

theorem InfixOp.token_ne_eof (op : InfixOp) : op.token ≠ .eof := by
  cases op <;> simp [InfixOp.token]

namespace Cursor

def values (c : Cursor) : List Token :=
  c.rest.map (·.value)

variable {stop : Located Token} {c : Cursor}

theorem values_eq_cons (hstop : stop.value = .eof) (ht : (c.next stop).value ≠ .eof) :
    c.values = (c.next stop).value :: (c.advance stop).values := by
  cases hr : c.rest with
  | nil => exact absurd (by rw [next_of_nil hr, hstop]) ht
  | cons t ts => simp [values, next_of_cons hr, hr]

theorem eq_value_next {ts rest : List Token} {t : Token} (h : c.values = ts ++ rest)
    (ht : t ∈ ts.head?) : t = (c.next stop).value := by
  cases ts with
  | nil => simp at ht
  | cons u us =>
    obtain rfl : u = t := by simpa using ht
    cases hr : c.rest with
    | nil => simp [values, hr] at h
    | cons t ts =>
      rw [next_of_cons hr]
      simp only [values, hr, List.map_cons, List.cons_append, List.cons.injEq] at h
      exact h.1.symm

/-- The tokens between two cursors have a property, if no error is recorded. -/
def Derives (c : Cursor) (P : List Token → Prop) (c' : Cursor) : Prop :=
  c'.errors = [] → ∃ ts, c.values = ts ++ c'.values ∧ P ts

end Cursor

namespace Grammar

inductive Binds (level : Nat) : Token → Prop
  | operator {op : InfixOp} (h : level < op.level) : Binds level op.token
  | call : Binds level (.mark .leftParen)
  | index : Binds level (.mark .leftBracket)

theorem binds_iff {level : Nat} {t : Token} :
    Binds level t ↔ (∃ op : InfixOp, t = op.token ∧ level < op.level) ∨
      t = .mark .leftParen ∨ t = .mark .leftBracket := by
  constructor
  · rintro (h | _ | _)
    · exact .inl ⟨_, rfl, h⟩
    · exact .inr (.inl rfl)
    · exact .inr (.inr rfl)
  · rintro (⟨op, rfl, h⟩ | rfl | rfl)
    · exact .operator h
    · exact .call
    · exact .index

theorem binds_zero_iff {t : Token} : Binds 0 t ↔ Continues t := by
  constructor
  · rintro (h | _ | _)
    · exact .operator _
    · exact .call
    · exact .index
  · rintro (op | _ | _)
    · exact .operator op.level_pos
    · exact .call
    · exact .index

theorem Starts.endsReturn_eq_false {t : Token} (h : Starts t) : t.endsReturn = false := by
  cases h with
  | prefixOp op => cases op <;> rfl
  | _ => rfl

theorem StartsStatement.endsReturn_eq_false {t : Token} (h : StartsStatement t) :
    t.endsReturn = false := by
  cases h with
  | expr h => exact h.endsReturn_eq_false
  | _ => rfl

theorem token_injective {op op' : InfixOp} (h : op.token = op'.token) : op = op' := by
  have h₁ := InfixOp.ofToken?_eq_some_iff.2 (Eq.refl op.token)
  have h₂ := InfixOp.ofToken?_eq_some_iff.2 h
  simpa [h₁] using h₂

theorem not_binds_operator {level : Nat} {op : InfixOp} (h : ¬ Binds level op.token) :
    op.level ≤ level :=
  Nat.le_of_not_lt fun hlt => h (.operator hlt)

theorem not_binds {level : Nat} {t : Token} (hop : ∀ op : InfixOp, t = op.token → op.level ≤ level)
    (hparen : t ≠ .mark .leftParen) (hbracket : t ≠ .mark .leftBracket) : ¬ Binds level t := by
  intro h
  rcases binds_iff.1 h with ⟨op, ht, hlt⟩ | h | h
  · exact absurd hlt (Nat.not_lt.2 (hop op ht))
  · exact hparen h
  · exact hbracket h

theorem Binary.mono {j k : Nat} {ts : List Token} {e : Expr Unit} (hjk : j ≤ k)
    (hk : k ≤ layers.length) (h : Binary k ts e) : Binary j ts e := by
  induction hjk with
  | refl => exact h
  | step hle ih => exact ih (by omega) (.tighter (by omega) h)

theorem Suffixed.binary {k : Nat} {ts : List Token} {e : Expr Unit} (h : Suffixed ts e)
    (hk : k ≤ layers.length) : Binary k ts e :=
  (Binary.unary (.suffixed h)).mono hk (Nat.le_refl _)

theorem Binary.toUnary {ts : List Token} {e : Expr Unit} (h : Binary layers.length ts e) :
    Unary ts e := by
  cases h with
  | infixOp hop => simp [layer, layers] at hop
  | tighter hk => exact absurd hk (Nat.lt_irrefl _)
  | unary h => exact h

/-- What has been read is an operand that the next token may still go on with: of any operator if
it can be called, else of those of a layer that is no tighter than the next token's. -/
inductive Open (k : Nat) (ts : List Token) (e : Expr Unit) (next : Token) : Prop
  | suffixed (h : Suffixed ts e)
  | binary {j : Nat} (hkj : k ≤ j) (hj : j ≤ layers.length) (h : Binary j ts e)
      (hnext : ¬ Binds (j + 1) next)

namespace Open

variable {j k : Nat} {ts us : List Token} {e r : Expr Unit} {next : Token} {op : InfixOp}

theorem mono (h : Open k ts e next) (hjk : j ≤ k) : Open j ts e next := by
  cases h with
  | suffixed h => exact .suffixed h
  | binary hkj hj h hnext => exact .binary (Nat.le_trans hjk hkj) hj h hnext

theorem toBinary (h : Open k ts e next) (hk : k ≤ layers.length) : Binary k ts e := by
  cases h with
  | suffixed h => exact h.binary hk
  | binary hkj hj h => exact h.mono hkj hj

theorem toSuffixed (h : Open k ts e next) (hnext : ∀ level, Binds level next) :
    Suffixed ts e := by
  cases h with
  | suffixed h => exact h
  | binary _ _ _ hn => exact absurd (hnext _) hn

/-- An operator finds its left operand in its own layer. -/
theorem infixOp (h : Open k ts e op.token) (hop : op.level = j + 1) (hkj : k ≤ j)
    (hr : Binary (j + 1) us r) (hnext : ¬ Binds op.level next) :
    Open k (ts ++ op.token :: us) (.infixOp op e r) next := by
  have hj : j < layers.length := by
    have hp := op.level_lt_prefix
    unfold PrefixOp.level at hp
    simp only [layers, List.length_cons, List.length_nil]
    omega
  have hl : Binary j ts e := by
    cases h with
    | suffixed h => exact h.binary (Nat.le_of_lt hj)
    | binary hki hi h hn =>
      have hle := not_binds_operator hn
      exact h.mono (by omega) hi
  exact .binary hkj (Nat.le_of_lt hj) (.infixOp (mem_layer_iff.2 hop) hl hr) (hop ▸ hnext)

end Open

end Grammar

namespace Parse

open Cursor

variable {stop : Located Token}

def Reads {α : Type} (p : Parse α) (c : Cursor) (Q : α → Cursor → Prop) : Prop :=
  p.wp c Q (fun _ _ => True)

theorem Reads.mono {α : Type} {p : Parse α} {c : Cursor} {Q Q' : α → Cursor → Prop}
    (h : p.Reads c Q) (hQ : ∀ a c', Q a c' → Q' a c') : p.Reads c Q' :=
  wp_mono h hQ fun _ _ => id

theorem Reads.and_keeps {α : Type} {p : Parse α} {c : Cursor} {Q : α → Cursor → Prop}
    {R : Cursor → Cursor → Prop} (h : p.Reads c Q) (hk : Keeps R p)
    (hR : ∀ c c', R c c' → Later c c') : p.Reads c (fun a c' => Q a c' ∧ Later c c') :=
  wp_mono (wp_and h (hk c)) (fun _ _ h => ⟨h.1, hR _ _ h.2⟩) (fun _ _ _ => trivial)

theorem Reads.bind {α β : Type} {p : Parse β} {next : β → Parse α} {c : Cursor}
    {Q : α → Cursor → Prop} {R : β → Cursor → Prop} (h : p.Reads c R)
    (hn : ∀ b c', R b c' → (next b).Reads c' Q) : (p >>= next).Reads c Q :=
  (wp_bind p next).2 (h.mono hn)

/-- A reader goes on only behind a mark that it expects. -/
theorem reads_expect {α : Type} (hstop : stop.value = .eof) {m : Mark} {next : Unit → Parse α}
    {c : Cursor} {Q : α → Cursor → Prop}
    (h : c.values = .mark m :: (c.advance stop).values → (next ()).Reads (c.advance stop) Q) :
    (expect stop m >>= next).Reads c Q := by
  rw [Reads, wp_bind, wp_expect]
  split
  next ht => exact h (by rw [values_eq_cons hstop (by simp [ht]), ht])
  next => trivial

theorem reads_expectIdentifier {α : Type} (hstop : stop.value = .eof) {next : String → Parse α}
    {c : Cursor} {Q : α → Cursor → Prop}
    (h : ∀ name, c.values = .identifier name :: (c.advance stop).values →
      (next name).Reads (c.advance stop) Q) :
    (expectIdentifier stop >>= next).Reads c Q := by
  rw [Reads, wp_bind, wp_expectIdentifier]
  split
  next name hname => exact h name (by rw [values_eq_cons hstop (by simp [hname]), hname])
  next => trivial

theorem reads_moreParameters (hstop : stop.value = .eof) (n : Nat) (c : Cursor) :
    (moreParameters stop n).Reads c fun names c' =>
      c.values = (names.flatMap fun name => [.mark .comma, .identifier name]) ++
        .mark .rightParen :: c'.values := by
  induction n generalizing c with
  | zero => exact wp_exhausted
  | succ n ih =>
    simp only [Reads, moreParameters, wp_bind, wp_peek]
    split
    next ht =>
      have h₁ := values_eq_cons (c := c) hstop (by simp [ht])
      rw [wp_bind, wp_skip]
      refine reads_expectIdentifier hstop fun name h₂ => (ih _).bind fun names c' h => ?_
      simp [Reads, h₁, ht, h₂, h]
    next => exact reads_expect hstop fun h₁ => by simp [Reads, h₁]

theorem parameterTokens_cons (name : String) (names : List String) :
    parameterTokens (name :: names) =
      .identifier name :: names.flatMap fun name => [.mark .comma, .identifier name] := by
  induction names generalizing name with
  | nil => rfl
  | cons other names ih =>
    have ih := ih other
    simp_all [parameterTokens]

theorem reads_parameters (hstop : stop.value = .eof) (n : Nat) (c : Cursor) :
    (parameters stop n).Reads c fun names c' =>
      c.values = parameterTokens names ++ .mark .rightParen :: c'.values := by
  simp only [Reads, parameters, wp_bind, wp_peek]
  split
  next ht =>
    have h₁ := values_eq_cons (c := c) hstop (by simp [ht])
    simp [h₁, ht, parameterTokens]
  next =>
    refine reads_expectIdentifier hstop fun name h₁ =>
      (reads_moreParameters hstop n _).bind fun names c' h => ?_
    simp [Reads, h₁, h, parameterTokens_cons]

theorem integerLiteral?_eq_some_iff {digits : String} {n : Int64} :
    Text.integerLiteral? digits = some n ↔
      Text.decimalValue digits.toList ≤ 9223372036854775807 ∧
        Int64.ofNat (Text.decimalValue digits.toList) = n := by
  have hbound {m : Nat} : m < Text.literalBound ↔ m ≤ 9223372036854775807 := by
    simp only [Text.literalBound]
    omega
  simp only [Text.integerLiteral?]
  rw [← hbound]
  split
  next h => simp [h]
  next h => simp [h]

theorem reads_ending (hstop : stop.value = .eof) {c : Cursor} (s : Stmt Unit)
    (hn : ¬ Binds 0 (c.next stop).value) :
    (do skipSemicolon stop; return s : Parse (Stmt Unit)).Reads c fun s' c' =>
      s' = s ∧ c.errors = c'.errors ∧ c.Derives (fun ts => ∀ rest : List Token,
        (∀ t ∈ rest.head?, t = (c'.next stop).value) → Ending ts rest) c' := by
  rw [Reads, wp_bind, wp_skipSemicolon]
  split
  next ht =>
    refine ⟨rfl, rfl, fun _ => ⟨[.mark .semicolon], ?_, fun rest _ => .semicolon rest⟩⟩
    rw [values_eq_cons hstop (by simp [ht]), ht]
    rfl
  next =>
    refine ⟨rfl, rfl, fun _ => ⟨[], rfl, fun rest hrest => .bare fun t ht => ?_⟩⟩
    rw [hrest t ht, ← binds_zero_iff]
    exact hn

/-- A statement that ends with an expression is read up to the semicolon behind it. -/
theorem reads_ended (hstop : stop.value = .eof) (f : Expr Unit → Stmt Unit) {n : Nat} {c : Cursor}
    (h : (expression stop 0 n).Reads c fun e c' =>
      c.Derives (Binary 0 · e) c' ∧ ¬ Binds 0 (c'.next stop).value) :
    (do
      let e ← expression stop 0 n
      skipSemicolon stop
      return f e : Parse (Stmt Unit)).Reads c fun s c' =>
        c'.errors = [] → ∃ ts us e, c.values = ts ++ us ++ c'.values ∧ s = f e ∧ Binary 0 ts e ∧
          ∀ rest : List Token, (∀ t ∈ rest.head?, t = (c'.next stop).value) → Ending us rest := by
  refine h.bind fun e c₁ ⟨he, hn⟩ => ?_
  refine (reads_ending hstop (f e) hn).mono fun s c' ⟨hs, herr, hend⟩ hc => ?_
  obtain ⟨us, hus, hend⟩ := hend hc
  obtain ⟨ts, hts, he⟩ := he (herr.trans hc)
  exact ⟨ts, us, e, by rw [hts, hus, List.append_assoc], hs, he, hend⟩

/-- A group behind its opening parenthesis. -/
theorem reads_group (hstop : stop.value = .eof) {n : Nat} {c : Cursor}
    (h : (expression stop 0 n).Reads c fun e c' => c.Derives (Binary 0 · e) c') :
    (do
      let e ← expression stop 0 n
      expect stop .rightParen
      return e : Parse (Expr Unit)).Reads c fun e c' =>
        c.Derives (fun ts => Primary (.mark .leftParen :: ts) e) c' := by
  refine h.bind fun e c₁ he => reads_expect hstop fun h₁ hc => ?_
  obtain ⟨ts, hts, he⟩ := he hc
  have hgroup : Primary (.mark .leftParen :: (ts ++ [.mark .rightParen])) e := .group he
  exact ⟨_, by simp [hts, h₁], hgroup⟩

/-- A conditional behind its keyword. -/
theorem reads_conditional (hstop : stop.value = .eof) {n : Nat} {c : Cursor}
    (hexpr : ∀ a, (expression stop 0 n).Reads a fun e c' => a.Derives (Binary 0 · e) c')
    (hblock : ∀ a, (block stop n).Reads a fun p c' =>
      a.Derives (fun ts => ∃ us, ts = us ++ [.mark .rightBrace] ∧ Statements us p) c') :
    (do
      expect stop .leftParen
      let condition ← expression stop 0 n
      expect stop .rightParen
      expect stop .leftBrace
      let consequence ← block stop n
      let next ← peek stop
      if next.value = .keyword .else_ then
        skip stop
        expect stop .leftBrace
        let alternative ← block stop n
        return .cond condition consequence (some alternative)
      else
        return .cond condition consequence none : Parse (Expr Unit)).Reads c fun e c' =>
          c.Derives (fun ts => Primary (.keyword .if_ :: ts) e) c' := by
  have body (a : Cursor) := (hblock a).and_keeps (keeps_block hstop n) fun _ _ => Past.later
  refine reads_expect hstop fun h₁ => (hexpr _).bind fun e c₁ he => ?_
  refine reads_expect hstop fun h₂ => reads_expect hstop fun h₃ => ?_
  refine (body _).bind fun b c₂ ⟨hb, hl⟩ => ?_
  -- the tokens from the parenthesis to the end of the first branch
  have hfirst (hc : c₂.errors = []) : ∃ ts us, Binary 0 ts e ∧ Statements us b ∧
      c.values = parens ts ++ braces us ++ c₂.values := by
    obtain ⟨ts, hts, he⟩ := he (hl.clean hc)
    obtain ⟨_, hus, us, rfl, hb⟩ := hb hc
    refine ⟨ts, us, he, hb, ?_⟩
    simp [parens, braces, enclosed, h₁, hts, h₂, h₃, hus]
  rw [Reads, wp_bind, wp_peek]
  split
  next helse =>
    have h₄ := values_eq_cons (c := c₂) hstop (by simp [helse])
    rw [wp_bind, wp_skip]
    refine reads_expect hstop fun h₅ => (body _).bind fun b' c' ⟨hb', hl'⟩ hc => ?_
    obtain ⟨ts, us, he, hb, hts⟩ := hfirst (hl'.clean hc)
    obtain ⟨_, hvs, vs, rfl, hb'⟩ := hb' hc
    refine ⟨parens ts ++ braces us ++ .keyword .else_ :: braces vs, ?_, .condElse he hb hb'⟩
    simp [braces, enclosed, hts, h₄, helse, h₅, hvs]
  next =>
    intro hc
    obtain ⟨ts, us, he, hb, hts⟩ := hfirst hc
    exact ⟨parens ts ++ braces us, hts, .cond he hb⟩

/-- A function literal behind its keyword. -/
theorem reads_function (hstop : stop.value = .eof) {n : Nat} {c : Cursor}
    (hblock : ∀ a, (block stop n).Reads a fun p c' =>
      a.Derives (fun ts => ∃ us, ts = us ++ [.mark .rightBrace] ∧ Statements us p) c') :
    (do
      expect stop .leftParen
      let params ← parameters stop n
      expect stop .leftBrace
      let body ← block stop n
      return .func () params body : Parse (Expr Unit)).Reads c fun e c' =>
        c.Derives (fun ts => Primary (.keyword .func :: ts) e) c' := by
  refine reads_expect hstop fun h₁ => ?_
  refine (reads_parameters hstop n _).bind fun params c₁ hparams => ?_
  refine reads_expect hstop fun h₂ => (hblock _).bind fun b c' hb hc => ?_
  obtain ⟨_, hts, ts, rfl, hb⟩ := hb hc
  refine ⟨parens (parameterTokens params) ++ braces ts, ?_, .func hb⟩
  simp [parens, braces, enclosed, h₁, hparams, h₂, hts]

/-! ## The readers, one by one -/

mutual

theorem reads_statements (hstop : stop.value = .eof) (inBlock : Bool) : ∀ n c,
    (statements stop inBlock n).Reads c fun p c' =>
      c.Derives (Statements · p) c' ∧ (c'.next stop).value.endsBlock inBlock = true
  | 0, _ => wp_exhausted
  | n + 1, c => by
    have next (a : Cursor) := (reads_statements hstop inBlock n a).and_keeps
      (fun c => wp_mono (wp_statements_later hstop inBlock n c) (fun _ _ => id)
        (fun _ _ => False.elim)) (fun _ _ => id)
    simp only [Reads, statements, wp_bind, wp_peek]
    split
    next hend => exact ⟨fun _ => ⟨[], rfl, .nil⟩, hend⟩
    next hend =>
      split
      next ht =>
        rw [wp_bind, wp_skip]
        refine (next _).mono fun p c' ⟨⟨hp, hend⟩, _⟩ => ⟨fun hc => ?_, hend⟩
        obtain ⟨ts, hts, hp⟩ := hp hc
        exact ⟨_, by rw [values_eq_cons hstop (by simp [ht]), ht, hts]; rfl, .semicolon hp⟩
      next =>
        rw [wp_bind, wp_attempt]
        refine wp_mono (reads_statement hstop n c) (fun s c₁ hs => ?_) (fun e c₁ _ => ?_)
        · rw [wp_bind]
          refine (next c₁).mono fun p c' ⟨⟨hp, hend⟩, hl⟩ => ⟨fun hc => ?_, hend⟩
          obtain ⟨us, hus, hp⟩ := hp hc
          obtain ⟨ts, hts, hs⟩ := hs (hl.clean hc)
          have hs := hs us p hp fun t ht => eq_value_next hus ht
          exact ⟨ts ++ us, by rw [hts, hus, List.append_assoc], .cons hs hp⟩
        · rw [wp_bind, wp_recover]
          refine (next _).mono fun p c' ⟨⟨_, hend⟩, hl⟩ => ⟨fun hc => ?_, hend⟩
          have := hl.clean hc
          simp at this

theorem reads_statement (hstop : stop.value = .eof) : ∀ n c,
    (statement stop n).Reads c fun s c' =>
      c.Derives (fun ts => ∀ rest p, Statements rest p →
        (∀ t ∈ rest.head?, t = (c'.next stop).value) → Statement ts s rest) c'
  | 0, _ => wp_exhausted
  | n + 1, c => by
    have expr (a : Cursor) : (expression stop 0 n).Reads a fun e c' =>
        a.Derives (Binary 0 · e) c' ∧ ¬ Binds 0 (c'.next stop).value := by
      simpa using reads_expression hstop 0 n a
    simp only [Reads, statement, wp_bind, wp_peek]
    split
    next ht =>
      have h₁ := values_eq_cons (c := c) hstop (by simp [ht])
      rw [wp_bind, wp_skip]
      refine reads_expectIdentifier hstop fun name h₂ => reads_expect hstop fun h₃ => ?_
      refine (reads_ended hstop (.var name) (expr _)).mono fun s c' hs hc => ?_
      obtain ⟨ts, us, e, hts, rfl, he, hend⟩ := hs hc
      refine ⟨.keyword .var :: .identifier name :: .mark .assign :: (ts ++ us), ?_,
        fun rest p _ hrest => .var he (hend rest hrest)⟩
      simp [h₁, ht, h₂, h₃, hts]
    next ht =>
      have h₁ := values_eq_cons (c := c) hstop (by simp [ht])
      rw [wp_bind, wp_skip, wp_bind, wp_peek]
      split
      next hends =>
        rw [wp_bind, wp_skipSemicolon]
        split
        next hsemi =>
          have h₂ := values_eq_cons (c := c.advance stop) hstop (by simp [hsemi])
          intro _
          refine ⟨[.keyword .return_, .mark .semicolon], ?_, fun _ _ _ _ => .retNilSemicolon⟩
          simp [h₁, ht, h₂, hsemi]
        next hsemi =>
          intro _
          refine ⟨[.keyword .return_], by simp [h₁, ht], fun rest p hp hrest => .retNil ?_⟩
          -- nothing but a semicolon ends a `return` and starts the rest of a sequence
          intro t htr
          have heq := hrest t htr
          rcases hp.starts t htr with h | h
          · exact h
          · rw [← heq, h.endsReturn_eq_false] at hends
            exact absurd hends Bool.false_ne_true
      next =>
        refine (reads_ended hstop .ret (expr _)).mono fun s c' hs hc => ?_
        obtain ⟨ts, us, e, hts, rfl, he, hend⟩ := hs hc
        exact ⟨.keyword .return_ :: (ts ++ us), by simp [h₁, ht, hts],
          fun rest p _ hrest => .ret he (hend rest hrest)⟩
    next =>
      refine (reads_ended hstop .expr (expr _)).mono fun s c' hs hc => ?_
      obtain ⟨ts, us, e, hts, rfl, he, hend⟩ := hs hc
      exact ⟨ts ++ us, hts, fun rest p _ hrest => .expr he (hend rest hrest)⟩

theorem reads_block (hstop : stop.value = .eof) : ∀ n c,
    (block stop n).Reads c fun p c' =>
      c.Derives (fun ts => ∃ us, ts = us ++ [.mark .rightBrace] ∧ Statements us p) c'
  | 0, _ => wp_exhausted
  | n + 1, c => by
    refine (reads_statements hstop true n c).bind fun p c₁ ⟨hp, _⟩ => ?_
    rw [Reads, wp_bind, wp_read]
    split
    next ht =>
      intro hc
      obtain ⟨ts, hts, hp⟩ := hp hc
      refine ⟨_, ?_, ts, rfl, hp⟩
      rw [hts, values_eq_cons hstop (by simp [ht]), ht, ← List.append_cons]
    next => trivial

theorem reads_expression (hstop : stop.value = .eof) (level : Nat) : ∀ n c,
    (expression stop level n).Reads c fun e c' =>
      c.Derives (Binary (min level layers.length) · e) c' ∧ ¬ Binds level (c'.next stop).value
  | 0, _ => wp_exhausted
  | n + 1, c => by
    simp only [Reads, expression, wp_bind, wp_read]
    by_cases ht : (c.next stop).value = .eof
    · -- the end is no operand
      rcases n with _ | n
      · exact wp_exhausted
      · simp [operand, ht]
    refine (reads_operand hstop _ n _).mono fun left c₁ hleft => ?_
    refine ((reads_continuation hstop level left n c₁).and_keeps
      (keeps_continuation hstop level left n) fun _ _ => From.later).mono
      fun e c' ⟨⟨he, hn⟩, hl⟩ => ⟨fun hc => ?_, hn⟩
    obtain ⟨ts, hts, hopen⟩ := hleft (hl.clean hc)
    obtain ⟨us, hus, he⟩ := he _ (hopen.mono (Nat.min_le_right _ _)) hc
    exact ⟨(c.next stop).value :: ts ++ us, by simp [values_eq_cons hstop ht, hts, hus], he⟩

theorem reads_operand (hstop : stop.value = .eof) (t : Located Token) : ∀ n c,
    (operand stop t n).Reads c fun e c' =>
      c.Derives (fun ts => Open layers.length (t.value :: ts) e (c'.next stop).value) c'
  | 0, _ => wp_exhausted
  | n + 1, c => by
    have leaf {e : Expr Unit} (h : Primary [t.value] e) :
        c.Derives (fun ts => Open layers.length (t.value :: ts) e (c.next stop).value) c :=
      fun _ => ⟨[], rfl, .suffixed (.primary h)⟩
    have prefixed (op : PrefixOp) (ht : t.value = op.token) :
        (do
          let e ← expression stop PrefixOp.level n
          return .prefixOp op e : Parse (Expr Unit)).Reads c fun e c' =>
            c.Derives (fun ts => Open layers.length (t.value :: ts) e (c'.next stop).value) c' := by
      rw [Reads, wp_bind]
      refine (reads_expression hstop PrefixOp.level n c).mono fun e c' ⟨he, hn⟩ hc => ?_
      obtain ⟨ts, hts, he⟩ := he hc
      have he : Unary (op.token :: ts) (.prefixOp op e) := .prefixOp (Binary.toUnary he)
      exact ⟨ts, hts, ht ▸ .binary (Nat.le_refl _) (Nat.le_refl _) (.unary he) hn⟩
    have primary {p : Parse (Expr Unit)}
        (h : p.Reads c fun e c' => c.Derives (fun ts => Primary (t.value :: ts) e) c') :
        p.Reads c fun e c' =>
          c.Derives (fun ts => Open layers.length (t.value :: ts) e (c'.next stop).value) c' := by
      refine h.mono fun e c' he hc => ?_
      obtain ⟨ts, hts, he⟩ := he hc
      exact ⟨ts, hts, .suffixed (.primary he)⟩
    have expr (a : Cursor) : (expression stop 0 n).Reads a fun e c' =>
        a.Derives (Binary 0 · e) c' :=
      (reads_expression hstop 0 n a).mono fun e c' h => by simpa using h.1
    unfold operand
    split
    next name ht => exact leaf (ht ▸ .ident)
    next digits ht =>
      split
      next m hm =>
        obtain ⟨hle, rfl⟩ := integerLiteral?_eq_some_iff.1 hm
        exact leaf (ht ▸ .int hle)
      next => trivial
    next value ht => exact leaf (ht ▸ .str)
    next ht => exact leaf (ht ▸ .true_)
    next ht => exact leaf (ht ▸ .false_)
    next ht => exact leaf (ht ▸ .nil)
    next ht => exact prefixed .minus ht
    next ht => exact prefixed .not ht
    next ht => exact primary (ht ▸ reads_group hstop (expr c))
    next ht =>
      refine primary ((reads_items hstop .rightBracket n c).bind fun es c₁ hes hc => ?_)
      obtain ⟨_, hts, ts, rfl, hes⟩ := hes hc
      exact ⟨_, hts, ht ▸ .list hes⟩
    next ht => exact primary (ht ▸ reads_conditional hstop expr (reads_block hstop n))
    next ht => exact primary (ht ▸ reads_function hstop (reads_block hstop n))
    next => trivial
    next => trivial

theorem reads_continuation (hstop : stop.value = .eof) (level : Nat) (left : Expr Unit) : ∀ n c,
    (continuation stop level left n).Reads c fun e c' =>
      (∀ us, Open (min level layers.length) us left (c.next stop).value →
        c.Derives (fun ts => Binary (min level layers.length) (us ++ ts) e) c') ∧
      ¬ Binds level (c'.next stop).value
  | 0, _ => wp_exhausted
  | n + 1, c => by
    have next (e : Expr Unit) (a : Cursor) := (reads_continuation hstop level e n a).and_keeps
      (keeps_continuation hstop level e n) fun _ _ => From.later
    -- nothing is read if the next token does not bind tighter
    have stopped (hn : ¬ Binds level (c.next stop).value) :
        (pure left : Parse (Expr Unit)).Reads c fun e c' =>
          (∀ us, Open (min level layers.length) us left (c.next stop).value →
            c.Derives (fun ts => Binary (min level layers.length) (us ++ ts) e) c') ∧
          ¬ Binds level (c'.next stop).value := by
      refine ⟨fun us hopen _ => ⟨[], rfl, ?_⟩, hn⟩
      simpa using hopen.toBinary (Nat.min_le_right _ _)
    simp only [Reads, continuation, wp_bind, wp_peek]
    split
    next ht =>
      have h₁ := values_eq_cons (c := c) hstop (by simp [ht])
      rw [wp_bind, wp_skip]
      refine (reads_items hstop .rightParen n _).bind fun args c₁ hargs => ?_
      refine (next _ _).mono fun e c' ⟨⟨he, hn⟩, hl⟩ => ⟨fun us hopen hc => ?_, hn⟩
      obtain ⟨_, hts, ts, rfl, hargs⟩ := hargs (hl.clean hc)
      have hcall := (hopen.toSuffixed fun _ => ht ▸ .call).call hargs
      obtain ⟨vs, hvs, he⟩ := he _ (.suffixed hcall) hc
      exact ⟨parens ts ++ vs, by simp [parens, enclosed, h₁, ht, hts, hvs], by simpa using he⟩
    next ht =>
      have h₁ := values_eq_cons (c := c) hstop (by simp [ht])
      rw [wp_bind, wp_skip]
      refine (reads_expression hstop 0 n _).bind fun position c₁ ⟨hp, _⟩ => ?_
      refine reads_expect hstop fun h₂ => ?_
      refine (next _ _).mono fun e c' ⟨⟨he, hn⟩, hl⟩ => ⟨fun us hopen hc => ?_, hn⟩
      obtain ⟨ts, hts, hp⟩ := hp (hl.clean hc)
      have hindex := (hopen.toSuffixed fun _ => ht ▸ .index).index (by simpa using hp)
      obtain ⟨vs, hvs, he⟩ := he _ (.suffixed hindex) hc
      exact ⟨brackets ts ++ vs, by simp [brackets, enclosed, h₁, ht, hts, h₂, hvs],
        by simpa using he⟩
    next hparen hbracket =>
      split
      next op hop =>
        have hv := InfixOp.ofToken?_eq_some_iff.1 hop
        split
        next hlt =>
          have h₁ := values_eq_cons (c := c) hstop (by rw [hv]; exact op.token_ne_eof)
          rw [wp_bind, wp_skip]
          refine (reads_expression hstop op.level n _).bind fun right c₁ ⟨hr, hnr⟩ => ?_
          refine (next _ _).mono fun e c' ⟨⟨he, hn⟩, hl⟩ => ⟨fun us hopen hc => ?_, hn⟩
          obtain ⟨ts, hts, hr⟩ := hr (hl.clean hc)
          obtain ⟨j, hj⟩ := Nat.exists_eq_succ_of_ne_zero (Nat.ne_of_gt op.level_pos)
          have hle : op.level ≤ layers.length := Nat.le_of_lt_succ op.level_lt_prefix
          rw [Nat.min_eq_left hle, hj] at hr
          rw [hv] at hopen
          obtain ⟨vs, hvs, he⟩ := he _ (hopen.infixOp hj (by omega) hr hnr) hc
          exact ⟨op.token :: ts ++ vs, by simp [h₁, hv, hts, hvs], by simpa using he⟩
        next hlt =>
          refine stopped (not_binds (fun op' hop' => ?_) hparen hbracket)
          rw [← token_injective (hv.symm.trans hop')]
          exact Nat.le_of_not_lt hlt
      next hop =>
        refine stopped (not_binds (fun op' hop' => ?_) hparen hbracket)
        simp [InfixOp.ofToken?_eq_some_iff.2 hop'] at hop

theorem reads_items (hstop : stop.value = .eof) (close : Mark) : ∀ n c,
    (items stop close n).Reads c fun es c' =>
      c.Derives (fun ts => ∃ us, ts = us ++ [.mark close] ∧ Arguments us es) c'
  | 0, _ => wp_exhausted
  | n + 1, c => by
    simp only [Reads, items, wp_bind, wp_peek]
    split
    next ht =>
      rw [wp_bind, wp_skip, wp_pure]
      intro _
      refine ⟨[.mark close], ?_, [], rfl, .nil⟩
      simpa [ht] using values_eq_cons (c := c) hstop (by simp [ht])
    next =>
      refine (reads_expression hstop 0 n c).bind fun e c₁ ⟨he, _⟩ => ?_
      refine ((reads_moreItems hstop close n c₁).and_keeps (keeps_moreItems hstop close n)
        fun _ _ => From.later).bind fun es c' ⟨hes, hl⟩ hc => ?_
      obtain ⟨ts, hts, he⟩ := he (hl.clean hc)
      obtain ⟨_, hus, us, rfl, hes⟩ := hes hc
      exact ⟨ts ++ (us ++ [.mark close]), by simp [hts, hus], ts ++ us, by simp,
        .cons (by simpa using he) hes⟩

theorem reads_moreItems (hstop : stop.value = .eof) (close : Mark) : ∀ n c,
    (moreItems stop close n).Reads c fun es c' =>
      c.Derives (fun ts => ∃ us, ts = us ++ [.mark close] ∧ MoreArguments us es) c'
  | 0, _ => wp_exhausted
  | n + 1, c => by
    simp only [Reads, moreItems, wp_bind, wp_peek]
    split
    next ht =>
      have h₁ := values_eq_cons (c := c) hstop (by simp [ht])
      rw [wp_bind, wp_skip]
      refine (reads_expression hstop 0 n _).bind fun e c₁ ⟨he, _⟩ => ?_
      refine ((reads_moreItems hstop close n c₁).and_keeps (keeps_moreItems hstop close n)
        fun _ _ => From.later).bind fun es c' ⟨hes, hl⟩ hc => ?_
      obtain ⟨ts, hts, he⟩ := he (hl.clean hc)
      obtain ⟨_, hus, us, rfl, hes⟩ := hes hc
      exact ⟨.mark .comma :: (ts ++ (us ++ [.mark close])), by simp [h₁, ht, hts, hus],
        .mark .comma :: (ts ++ us), by simp, .cons (by simpa using he) hes⟩
    next => exact reads_expect hstop fun h₁ _ => ⟨[.mark close], by simp [h₁], [], rfl, .nil⟩

end

end Parse

end Scriptlet
