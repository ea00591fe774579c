import Scriptlet.Proofs.Acceptance
import Scriptlet.Proofs.Adjacency
import Scriptlet.Proofs.Tiling

/-!
# Programs joined by a semicolon

A text that is read without errors may be followed by a semicolon and any other text: its statements
are read as if it stood alone, and behind the semicolon reading starts afresh. So both programs are
read one behind the other, and the errors are those of the second text, with their spans moved.
-/

namespace Scriptlet

open Grammar

/-! ## Sentences are of legal tokens -/

def AllLegal (ts : List Token) : Prop :=
  ∀ t ∈ ts, t.Legal

section

variable {ts us : List Token}

theorem allLegal_nil : AllLegal [] := by
  simp [AllLegal]

theorem allLegal_cons {t : Token} (ht : t.Legal) (h : AllLegal ts) : AllLegal (t :: ts) :=
  List.forall_mem_cons.2 ⟨ht, h⟩

theorem allLegal_append (h : AllLegal ts) (h' : AllLegal us) : AllLegal (ts ++ us) :=
  List.forall_mem_append.2 ⟨h, h'⟩

theorem allLegal_enclosed {opening closing : Mark} (h : AllLegal ts) :
    AllLegal (enclosed opening closing ts) :=
  allLegal_cons nofun (allLegal_append h (allLegal_cons nofun allLegal_nil))

theorem allLegal_parameterTokens (names : List String) : AllLegal (parameterTokens names) := by
  rcases names with _ | ⟨name, names⟩
  · exact allLegal_nil
  · rw [Parse.parameterTokens_cons]
    have hpair (name : String) : AllLegal [.mark .comma, .identifier name] :=
      allLegal_cons nofun (allLegal_cons nofun allLegal_nil)
    refine allLegal_cons nofun ?_
    intro t ht
    obtain ⟨name, -, ht⟩ := List.mem_flatMap.1 ht
    exact hpair name t ht

end

namespace Grammar

theorem Ending.legal {ending rest : List Token} (h : Ending ending rest) : AllLegal ending := by
  cases h with
  | semicolon => exact allLegal_cons nofun allLegal_nil
  | bare => exact allLegal_nil

mutual

theorem Statements.legal {ts : List Token} {p : Program} : Statements ts p → AllLegal ts
  | .nil => allLegal_nil
  | .semicolon h => allLegal_cons nofun h.legal
  | .cons hs hp => allLegal_append hs.legal hp.legal

theorem Statement.legal {ts rest : List Token} {s : Stmt Unit} :
    Statement ts s rest → AllLegal ts
  | .var he h => allLegal_cons nofun (allLegal_cons nofun (allLegal_cons nofun
      (allLegal_append he.legal h.legal)))
  | .ret he h => allLegal_cons nofun (allLegal_append he.legal h.legal)
  | .retNil _ => allLegal_cons nofun allLegal_nil
  | .retNilSemicolon => allLegal_cons nofun (allLegal_cons nofun allLegal_nil)
  | .expr he h => allLegal_append he.legal h.legal

theorem Binary.legal {k : Nat} {ts : List Token} {e : Expr Unit} : Binary k ts e → AllLegal ts
  | @Binary.infixOp _ op _ _ _ _ _ hl hr =>
    allLegal_append hl.legal (allLegal_cons (by cases op <;> exact nofun) hr.legal)
  | .tighter _ h => h.legal
  | .unary h => h.legal

theorem Unary.legal {ts : List Token} {e : Expr Unit} : Unary ts e → AllLegal ts
  | @Unary.prefixOp op _ _ h => allLegal_cons (by cases op <;> exact nofun) h.legal
  | .suffixed h => h.legal

theorem Suffixed.legal {ts : List Token} {e : Expr Unit} : Suffixed ts e → AllLegal ts
  | .primary h => h.legal
  | .call hf hargs => allLegal_append hf.legal (allLegal_enclosed hargs.legal)
  | .index ht hp => allLegal_append ht.legal (allLegal_enclosed hp.legal)

theorem Primary.legal {ts : List Token} {e : Expr Unit} : Primary ts e → AllLegal ts
  | .ident => allLegal_cons nofun allLegal_nil
  | .int _ => allLegal_cons nofun allLegal_nil
  | .str => allLegal_cons nofun allLegal_nil
  | .true_ => allLegal_cons nofun allLegal_nil
  | .false_ => allLegal_cons nofun allLegal_nil
  | .nil => allLegal_cons nofun allLegal_nil
  | .group h => allLegal_enclosed h.legal
  | .list h => allLegal_enclosed h.legal
  | .cond hc hb => allLegal_cons nofun
      (allLegal_append (allLegal_enclosed hc.legal) (allLegal_enclosed hb.legal))
  | .condElse hc hb hb' => allLegal_cons nofun (allLegal_append
      (allLegal_append (allLegal_enclosed hc.legal) (allLegal_enclosed hb.legal))
      (allLegal_cons nofun (allLegal_enclosed hb'.legal)))
  | @Primary.func params _ _ hb => allLegal_cons nofun (allLegal_append
      (allLegal_enclosed (allLegal_parameterTokens params)) (allLegal_enclosed hb.legal))

theorem Arguments.legal {ts : List Token} {es : List (Expr Unit)} : Arguments ts es → AllLegal ts
  | .nil => allLegal_nil
  | .cons he hes => allLegal_append he.legal hes.legal

theorem MoreArguments.legal {ts : List Token} {es : List (Expr Unit)} :
    MoreArguments ts es → AllLegal ts
  | .nil => allLegal_nil
  | .cons he hes => allLegal_cons nofun (allLegal_append he.legal hes.legal)

end

end Grammar

/-! ## In front of the semicolon -/

namespace Cursor

/-- These tokens are next in the row, and a row ends it. -/
structure Ahead (ts : List Token) (tail : List (Located Token)) (c : Cursor) : Prop where
  values : c.values = ts ++ tail.map (·.value)
  suffix : tail <:+ c.rest

variable {ts us : List Token} {tail : List (Located Token)} {c c' : Cursor}

theorem Ahead.of_suffix (h : c.Ahead ts tail) (hrest : c'.rest <:+ c.rest)
    (hvalues : c'.values = us ++ tail.map (·.value)) : c'.Ahead us tail where
  values := hvalues
  suffix := by
    have hlength := congrArg List.length hvalues
    simp only [Cursor.values, List.length_append, List.length_map] at hlength
    exact List.suffix_of_suffix_length_le h.suffix hrest (by omega)

theorem Ahead.rest_eq (h : c.Ahead [] tail) : c.rest = tail := by
  have hlength := congrArg List.length h.values
  simp only [Cursor.values, List.nil_append, List.length_map] at hlength
  exact (h.suffix.eq_of_length hlength.symm).symm

end Cursor

namespace Parse

open Cursor

variable {α β : Type} {stop semicolon : Located Token} {behind : List (Located Token)}

/-- Reading a sentence comes to reading on behind the semicolon that follows it. By then nothing is
left of the sentence, not even the token that was read last. -/
theorem wp_statements_of_ahead (hstop : stop.value = .eof)
    (hsemicolon : semicolon.value = .mark .semicolon) {ts : List Token} {p : Program} :
    Statements ts p → ∀ (n : Nat) (c : Cursor) (Q : Program → Cursor → Prop)
      (E : ParseError → Cursor → Prop), c.Ahead ts (semicolon :: behind) →
      (∀ n', (statements stop false n').wp ⟨semicolon, behind, c.errors⟩
        (fun p' c' => Q (p ++ p') c') E) →
      (statements stop false n).wp c Q E
  | _, 0, _, _, _, _, _ => wp_exhausted
  | .nil, n + 1, c, Q, E, hc, hQ => by
    rw [wp_statements_semicolon (by rw [next_of_cons hc.rest_eq, hsemicolon]),
      advance_of_cons hc.rest_eq]
    exact hQ n
  | .semicolon h, n + 1, c, Q, E, hc, hQ => by
    rw [wp_statements_semicolon (value_next_of_cons hc.values)]
    refine wp_statements_of_ahead hstop hsemicolon h n _ Q E (hc.of_suffix ?_ ?_) hQ
    · exact List.tail_suffix _
    · rw [values_advance, hc.values, List.cons_append, List.tail_cons]
  | @Statements.cons ts rest s p hs hp, n + 1, c, Q, E, hc, hQ => by
    obtain ⟨t, us, hts, hstart⟩ := hs.starts
    have ht : (c.next stop).value = t := by
      simp [value_next hstop, hc.values, hts]
    rw [wp_statements_statement (ht ▸ hstart.endsBlock_eq_false false) (ht ▸ hstart.ne_semicolon)]
    have htail : (((semicolon :: behind).map Located.value).headD .eof).endsReturn = true := by
      simp [hsemicolon, Token.endsReturn]
    have hread := accepts_statement hstop hp.starts (stops_of_endsReturn htail) htail hs n c
      (by rw [hc.values, List.append_assoc])
    refine wp_mono (wp_and hread (keeps_statement hstop n c))
      (fun s' c₁ ⟨⟨hs, hr⟩, hpast⟩ => ?_) (fun _ _ h => h.1.elim)
    subst hs
    rw [← hr.errors] at hQ
    obtain hvalues | ⟨hlast, hvalues⟩ := hr.values
    · exact wp_statements_of_ahead hstop hsemicolon hp n c₁ _ E
        (hc.of_suffix hpast.later.rest hvalues) hQ
    · -- the statement has taken the semicolon that is next, so go back in front of it
      let c₀ : Cursor := ⟨c₁.last, c₁.last :: c₁.rest, c₁.errors⟩
      have hsuffix : c₀.rest <:+ c.rest := hpast.reached.resolve_right fun ⟨hl, _⟩ => by
        rw [hl, hstop] at hlast
        cases hlast
      have h := wp_statements_of_ahead hstop hsemicolon hp (n + 1) c₀
        (fun p' c' => Q (s' :: p') c') E
        (hc.of_suffix hsuffix (by simpa [c₀, Cursor.values, hlast] using hvalues.symm)) hQ
      rwa [wp_statements_semicolon (c := c₀) hlast] at h

/-! ## Behind the semicolon -/

def Forgets (p : Parse α) : Prop :=
  ∀ last last' rest errors, p ⟨last, rest, errors⟩ = p ⟨last', rest, errors⟩

theorem Forgets.wp_iff {p : Parse α} (h : Forgets p) (last last' : Located Token)
    {rest : List (Located Token)} {errors : List ParseError} {Q : α → Cursor → Prop}
    {E : ParseError → Cursor → Prop} :
    p.wp ⟨last, rest, errors⟩ Q E ↔ p.wp ⟨last', rest, errors⟩ Q E := by
  rw [wp, wp, h last last']

theorem forgets_exhausted : Forgets (exhausted : Parse α) :=
  fun _ _ _ _ => rfl

theorem forgets_skip_bind (next : Unit → Parse α) : Forgets (skip stop >>= next) :=
  fun _ _ _ _ => rfl

theorem forgets_peek_bind {next : Located Token → Parse α} (h : ∀ t, Forgets (next t)) :
    Forgets (peek stop >>= next) :=
  fun last last' rest errors => h (rest.headD stop) last last' rest errors

theorem Forgets.bind {p : Parse α} (h : Forgets p) (next : α → Parse β) :
    Forgets (p >>= next) := by
  intro last last' rest errors
  change andThen p next _ = andThen p next _
  rw [andThen, andThen, h last last']

theorem Forgets.attempt {p : Parse α} (h : Forgets p) : Forgets (attempt p) :=
  fun last last' rest errors => congrArg (Option.map _) (h last last' rest errors)

theorem Forgets.ite {P : Prop} [Decidable P] {p q : Parse α} (hp : Forgets p) (hq : Forgets q) :
    Forgets (if P then p else q) := by
  split
  · exact hp
  · exact hq

theorem forgets_expression (level n : Nat) : Forgets (expression stop level n) := by
  cases n with
  | zero => exact forgets_exhausted
  | succ n => exact fun _ _ _ _ => rfl

theorem forgets_statement (n : Nat) : Forgets (statement stop n) := by
  cases n with
  | zero => exact forgets_exhausted
  | succ n =>
    refine forgets_peek_bind fun t => ?_
    split
    · exact forgets_skip_bind _
    · exact forgets_skip_bind _
    · exact (forgets_expression 0 n).bind _

/-- Statements are read in the same way whatever was read before them. -/
theorem accepts_statements_of_last {inBlock : Bool} {n : Nat} {last last' : Located Token}
    {rest : List (Located Token)} {errors : List ParseError}
    (Q : Program → List ParseError → Prop)
    (h : (statements stop inBlock n).Accepts ⟨last, rest, errors⟩ fun p c => Q p c.errors) :
    (statements stop inBlock n).Accepts ⟨last', rest, errors⟩ fun p c => Q p c.errors := by
  rcases n with _ | n
  · exact wp_exhausted
  have hnext : next stop ⟨last', rest, errors⟩ = next stop ⟨last, rest, errors⟩ := rfl
  unfold Accepts statements at h ⊢
  rw [wp_bind, wp_peek] at h ⊢
  rw [hnext]
  split at h
  next hend =>
    rw [if_pos hend]
    exact h
  next hend =>
    rw [if_neg hend]
    refine (Forgets.wp_iff ?_ last last').1 h
    exact (forgets_skip_bind _).ite ((forgets_statement n).attempt.bind _)

end Parse

namespace Stream

/-- With other spans, and whatever was read before, the same program is read, and the same errors
are recorded, with other spans. -/
theorem accepts_moved (s : Stream) (f : Span → Span) (last : Located Token) (n : Nat) :
    (statements (s.eof.move f) false n).Accepts ⟨last, s.tokens.map (Located.move f), []⟩
      fun p c => p = s.parse.program ∧
        c.errors.reverse = s.parse.errors.map (ParseError.move f) := by
  obtain ⟨p, c, hparse, hrun⟩ := s.parse_spec
    (Parse.wp_mono (Parse.wp_self _ _) (fun _ _ => id) fun _ _ _ => trivial)
  have hmoved : (statements (s.eof.move f) false n).Accepts
      (Cursor.move f ⟨s.eof, s.tokens, []⟩) fun p' c' => p' = p ∧ c' = c.move f :=
    (Parse.moves_statements false s.fuel n).wp hrun
  refine Parse.accepts_statements_of_last (fun p errors => p = s.parse.program ∧
    errors.reverse = s.parse.errors.map (ParseError.move f)) (hmoved.mono ?_)
  rintro p' c' ⟨rfl, rfl⟩
  rw [hparse]
  exact ⟨rfl, List.map_reverse.symm⟩

/-- If a sentence, a semicolon and another row with other spans make up the tokens, then they are
read one behind the other. -/
theorem parse_of_joined {s s₁ s₂ : Stream} {semicolon : Located Token} {f : Span → Span}
    {p : Program} (hp : Statements s₁.values p) (hsemicolon : semicolon.value = .mark .semicolon)
    (htokens : s.tokens = s₁.tokens ++ semicolon :: s₂.tokens.map (Located.move f))
    (heof : s.eof = s₂.eof.move f) :
    s.parse = ⟨p ++ s₂.parse.program, s₂.parse.errors.map (ParseError.move f)⟩ := by
  have hahead : Cursor.Ahead s₁.values (semicolon :: s₂.tokens.map (Located.move f))
      ⟨s.eof, s.tokens, []⟩ := by
    refine ⟨?_, ?_⟩
    · rw [Cursor.values, htokens, List.map_append]
      rfl
    · rw [htokens]
      exact List.suffix_append _ _
  obtain ⟨q, c, hparse, hq, herrors⟩ := s.parse_spec
    (Parse.wp_statements_of_ahead rfl hsemicolon hp s.fuel ⟨s.eof, s.tokens, []⟩
      (fun q c => q = p ++ s₂.parse.program ∧
        c.errors.reverse = s₂.parse.errors.map (ParseError.move f)) _ hahead fun n => by
      rw [heof]
      exact Parse.wp_mono (s₂.accepts_moved f semicolon n)
        (fun q c ⟨hq, herrors⟩ => ⟨congrArg (p ++ ·) hq, herrors⟩) fun _ _ => False.elim)
  rw [hparse, hq, herrors]

variable {a : String}

/-- The tokens of two texts with a semicolon between them. -/
theorem tokens_ofText_joined (b : String) (h : ∀ t ∈ (ofText a).tokens, t.value.Legal) :
    (ofText (a ++ ";" ++ b)).tokens = (ofText a).tokens ++
      ⟨.mark .semicolon, ⟨a.utf8ByteSize, a.utf8ByteSize + 1⟩⟩ ::
        (ofText b).tokens.map (Located.move (Span.shift (a.utf8ByteSize + 1))) := by
  have htext : (a ++ ";" ++ b).toList = a.toList ++ ';' :: b.toList := by simp
  have happend := tokensFrom_append (fun t ht => (h t ht).isUnclosed_eq_false)
    (apart_cons b.toList (c := ';') (by decide))
  rw [Nat.zero_add, byteLength_toList, tokensFrom_semicolon] at happend
  have hbehind := tokensFrom_add (a.utf8ByteSize + 1) 0 b.toList
  change tokensFrom 0 (a ++ ";" ++ b).toList = tokensFrom 0 a.toList ++ _ ::
    (tokensFrom 0 b.toList).map (Located.move (Span.shift (a.utf8ByteSize + 1)))
  rw [htext, happend, ← hbehind, Nat.add_zero]

theorem eof_ofText_joined (a b : String) : (ofText (a ++ ";" ++ b)).eof =
    (ofText b).eof.move (Span.shift (a.utf8ByteSize + 1)) := by
  have hstop : byteLength (a ++ ";" ++ b).toList = a.utf8ByteSize + 1 + byteLength b.toList := by
    rw [String.toList_append, String.toList_append, byteLength_append, byteLength_append,
      byteLength_toList a]
    rfl
  simp only [eof, ofText, hstop]
  rfl

end Stream

/-- Behind a text without errors and a semicolon any text is read as it is alone. -/
theorem parse_joined (a b : String) (h : (parse a).errors = []) :
    parse (a ++ ";" ++ b) =
      ⟨(parse a).program ++ (parse b).program,
        (parse b).errors.map (ParseError.move (Span.shift (a.utf8ByteSize + 1)))⟩ := by
  have hsentence : Statements (Stream.ofText a).values (parse a).program :=
    statements_of_parse (congrArg (Parsed.mk _) h)
  have htokens := Stream.tokens_ofText_joined b fun t ht =>
    hsentence.legal t.value (List.mem_map_of_mem ht)
  exact Stream.parse_of_joined hsentence rfl htokens (Stream.eof_ofText_joined a b)

/-- The first text ends with a `return` that has no value, and the second one begins with a
statement that is malformed. -/
theorem parse_joined_at_return :
    (parse "return").errors = [] ∧
      parse ("return" ++ ";" ++ "var = 2; y") =
        ⟨[.ret .nil, .expr (.ident "y")], [.expected .identifier ⟨.mark .assign, ⟨11, 12⟩⟩]⟩ := by
  have h : (parse "return").errors = [] := by decide +kernel
  refine ⟨h, (parse_joined "return" "var = 2; y" h).trans ?_⟩
  decide +kernel

end Scriptlet
