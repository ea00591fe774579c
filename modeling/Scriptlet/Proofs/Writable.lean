import Scriptlet.Proofs.Everywhere
import Scriptlet.Proofs.Lexemes
import Scriptlet.Proofs.Progress

/-!
# What is read can be written

Names in a tree come from tokens, and integers from their digits, whether or not errors were
recorded on the way. So every name in a program that was read is a name of the language, and no
integer is negative (`Block.Writable`).
-/

namespace Scriptlet

section

variable {ι : Type}

/-- Whether the names and the number of an expression itself can be written as tokens. -/
def Expr.isWritable : Expr ι → Bool
  | .ident name => isName name
  | .int n => decide (0 ≤ n.toInt)
  | .func _ params _ => params.all isName
  | _ => true

def Block.isWritable (b : Block ι) : Bool :=
  b.all fun
    | .var name _ => isName name
    | _ => true

/-- All names and numbers in an expression can be written. -/
def Expr.Writable (e : Expr ι) : Prop :=
  e.everywhere Expr.isWritable Block.isWritable = true

def WritableExprs (es : List (Expr ι)) : Prop :=
  exprsEverywhere Expr.isWritable Block.isWritable es = true

def Block.Writable (b : Block ι) : Prop :=
  b.everywhere Expr.isWritable Block.isWritable = true

def Stmt.Writable (s : Stmt ι) : Prop :=
  Block.Writable [s]

theorem Stmt.writable_var_iff {name : String} {e : Expr ι} :
    (Stmt.var name e).Writable ↔ isName name = true ∧ e.Writable := by
  simp [Stmt.Writable, Block.Writable, Block.everywhere, Block.isWritable, stmtsEverywhere,
    Stmt.everywhere, Expr.Writable]

theorem Stmt.writable_ret_iff {e : Expr ι} : (Stmt.ret e).Writable ↔ e.Writable := by
  simp [Stmt.Writable, Block.Writable, Block.everywhere, Block.isWritable, stmtsEverywhere,
    Stmt.everywhere, Expr.Writable]

theorem Stmt.writable_expr_iff {e : Expr ι} : (Stmt.expr e).Writable ↔ e.Writable := by
  simp [Stmt.Writable, Block.Writable, Block.everywhere, Block.isWritable, stmtsEverywhere,
    Stmt.everywhere, Expr.Writable]

theorem writableExprs_cons_iff {e : Expr ι} {es : List (Expr ι)} :
    WritableExprs (e :: es) ↔ e.Writable ∧ WritableExprs es := by
  simp [WritableExprs, Expr.Writable, exprsEverywhere]

theorem Block.writable_cons {s : Stmt ι} {b : Block ι} (hs : s.Writable) (hb : Block.Writable b) :
    Block.Writable (s :: b) := by
  simp_all [Stmt.Writable, Block.Writable, Block.everywhere, Block.isWritable, stmtsEverywhere]

end

namespace Parse

open Cursor

variable {α β : Type} {stop : Located Token}

/-- From a row of tokens that were read from a text a reader takes only things with `W`. -/
def Yields (p : Parse α) (W : α → Prop) : Prop :=
  ∀ c : Cursor, (∀ t ∈ c.rest, t.value.Lexed) →
    p.wp c (fun a c' => W a ∧ ∀ t ∈ c'.rest, t.value.Lexed) (fun _ _ => True)

def Named (t : Located Token) : Prop :=
  ∀ name, t.value = .identifier name → isName name = true

section

variable {W : α → Prop} {V : β → Prop}

theorem yields_exhausted : (exhausted : Parse α).Yields W := fun _ _ => wp_exhausted

theorem yields_pure {a : α} (h : W a) : (pure a : Parse α).Yields W := fun _ hc => ⟨h, hc⟩

theorem yields_fail (e : ParseError) : (fail e : Parse α).Yields W := fun _ _ => trivial

theorem Yields.bind {p : Parse α} {next : α → Parse β} (hp : p.Yields W)
    (hnext : ∀ a, W a → (next a).Yields V) : (p >>= next).Yields V := by
  intro c hc
  rw [wp_bind]
  exact wp_mono (hp c hc) (fun a c₁ ⟨ha, hc₁⟩ => hnext a ha c₁ hc₁) (fun _ _ => id)

theorem yields_peek_bind {next : Located Token → Parse α} (h : ∀ t, (next t).Yields W) :
    (peek stop >>= next).Yields W :=
  fun c hc => (wp_bind _ _).2 (h _ c hc)

theorem Yields.ite {P : Prop} [Decidable P] {p q : Parse α} (hp : p.Yields W) (hq : q.Yields W) :
    (if P then p else q).Yields W := by
  split
  · exact hp
  · exact hq

end

theorem named_next (hstop : stop.value = .eof) {c : Cursor}
    (hc : ∀ t ∈ c.rest, t.value.Lexed) : Named (c.next stop) := by
  intro name hname
  cases hr : c.rest with
  | nil => simp [next_of_nil hr, hstop] at hname
  | cons t ts =>
    rw [next_of_cons hr] at hname
    have ht := hc t (by simp [hr])
    rwa [hname] at ht

theorem yields_read (hstop : stop.value = .eof) : (read stop).Yields Named :=
  fun _ hc => ⟨named_next hstop hc, fun t ht => hc t (List.mem_of_mem_tail ht)⟩

theorem yields_skip : (skip stop).Yields fun _ => True :=
  fun _ hc => ⟨trivial, fun t ht => hc t (List.mem_of_mem_tail ht)⟩

theorem yields_expect (m : Mark) : (expect stop m).Yields fun _ => True :=
  yields_peek_bind fun _ => yields_skip.ite (yields_fail _)

theorem yields_skipSemicolon : (skipSemicolon stop).Yields fun _ => True :=
  yields_peek_bind fun _ => yields_skip.ite (yields_pure trivial)

theorem yields_expectIdentifier (hstop : stop.value = .eof) :
    (expectIdentifier stop).Yields fun name => isName name = true := by
  intro c hc
  rw [wp_expectIdentifier]
  split
  next name hname => exact ⟨named_next hstop hc name hname, (yields_skip c hc).2⟩
  next => trivial

theorem yields_moreParameters (hstop : stop.value = .eof) (n : Nat) :
    (moreParameters stop n).Yields fun names => names.all isName = true := by
  induction n with
  | zero => exact yields_exhausted
  | succ n ih =>
    refine yields_peek_bind fun _ => Yields.ite ?_ ?_
    · exact yields_skip.bind fun _ _ => (yields_expectIdentifier hstop).bind fun _ hname =>
        ih.bind fun _ hnames => yields_pure (by simp_all)
    · exact (yields_expect _).bind fun _ _ => yields_pure rfl

theorem yields_parameters (hstop : stop.value = .eof) (n : Nat) :
    (parameters stop n).Yields fun names => names.all isName = true :=
  yields_peek_bind fun _ => Yields.ite
    (yields_skip.bind fun _ _ => yields_pure rfl)
    ((yields_expectIdentifier hstop).bind fun _ hname =>
      (yields_moreParameters hstop n).bind fun _ hnames => yields_pure (by simp_all))

mutual

theorem yields_statements (hstop : stop.value = .eof) (inBlock : Bool) :
    ∀ n, (statements stop inBlock n).Yields Block.Writable
  | 0 => yields_exhausted
  | n + 1 => by
    have next := yields_statements hstop inBlock n
    refine yields_peek_bind fun t => Yields.ite (yields_pure rfl)
      (Yields.ite (yields_skip.bind fun _ _ => next) ?_)
    intro c hc
    rw [wp_bind, wp_attempt]
    refine wp_mono (wp_and (yields_statement hstop n c hc) (keeps_statement hstop n c))
      (fun s c₁ ⟨⟨hs, hc₁⟩, _⟩ => ?_) (fun e c₁ ⟨_, hpast⟩ => ?_)
    · exact (next.bind fun b hb => yields_pure (Block.writable_cons hs hb)) c₁ hc₁
    · rw [wp_bind, wp_recover]
      exact next _ fun t ht => hc t ((recovered_suffix hstop inBlock hpast).subset ht)

theorem yields_statement (hstop : stop.value = .eof) :
    ∀ n, (statement stop n).Yields Stmt.Writable
  | 0 => yields_exhausted
  | n + 1 => by
    have expr := yields_expression hstop 0 n
    have tail {s : Stmt Unit} (h : s.Writable) :
        (do skipSemicolon stop; return s : Parse (Stmt Unit)).Yields Stmt.Writable :=
      yields_skipSemicolon.bind fun _ _ => yields_pure h
    refine yields_peek_bind fun t => ?_
    split
    · exact yields_skip.bind fun _ _ => (yields_expectIdentifier hstop).bind fun _ hname =>
        (yields_expect _).bind fun _ _ => expr.bind fun _ he =>
          tail (Stmt.writable_var_iff.2 ⟨hname, he⟩)
    · exact yields_skip.bind fun _ _ => yields_peek_bind fun _ => Yields.ite (tail rfl)
        (expr.bind fun _ he => tail (Stmt.writable_ret_iff.2 he))
    · exact expr.bind fun _ he => tail (Stmt.writable_expr_iff.2 he)

theorem yields_block (hstop : stop.value = .eof) : ∀ n, (block stop n).Yields Block.Writable
  | 0 => yields_exhausted
  | n + 1 => (yields_statements hstop true n).bind fun _ hb =>
      (yields_read hstop).bind fun _ _ => Yields.ite (yields_pure hb) (yields_fail _)

theorem yields_expression (hstop : stop.value = .eof) (level : Nat) :
    ∀ n, (expression stop level n).Yields Expr.Writable
  | 0 => yields_exhausted
  | n + 1 => (yields_read hstop).bind fun _ ht => (yields_operand hstop ht n).bind fun _ hleft =>
      yields_continuation hstop level hleft n

theorem yields_operand (hstop : stop.value = .eof) {t : Located Token} (ht : Named t) :
    ∀ n, (operand stop t n).Yields Expr.Writable
  | 0 => yields_exhausted
  | n + 1 => by
    have expr (level : Nat) := yields_expression hstop level n
    have body := yields_block hstop n
    unfold operand
    split
    next name hname => exact yields_pure (ht name hname)
    next digits _ =>
      split
      next m hm =>
        refine yields_pure (decide_eq_true ?_)
        rw [Text.toInt_of_integerLiteral? hm]
        exact Int.natCast_nonneg _
      next => exact yields_fail _
    next => exact yields_pure rfl
    next => exact yields_pure rfl
    next => exact yields_pure rfl
    next => exact yields_pure rfl
    next => exact (expr _).bind fun _ he => yields_pure he
    next => exact (expr _).bind fun _ he => yields_pure he
    next =>
      exact (expr 0).bind fun _ he => (yields_expect _).bind fun _ _ => yields_pure he
    next => exact (yields_items hstop _ n).bind fun _ hes => yields_pure hes
    next =>
      refine (yields_expect _).bind fun _ _ => (expr 0).bind fun c hc =>
        (yields_expect _).bind fun _ _ => (yields_expect _).bind fun _ _ => body.bind fun b hb =>
        yields_peek_bind fun _ => Yields.ite
          (yields_skip.bind fun _ _ => (yields_expect _).bind fun _ _ => body.bind fun d hd =>
            yields_pure ?_)
          (yields_pure ?_)
      · have hcond : c.Writable ∧ Block.Writable b ∧ Block.Writable d := ⟨hc, hb, hd⟩
        simpa [Expr.Writable, Block.Writable, Block.everywhere, Expr.everywhere, Expr.isWritable,
          and_assoc] using hcond
      · have hcond : c.Writable ∧ Block.Writable b := ⟨hc, hb⟩
        simpa [Expr.Writable, Block.Writable, Block.everywhere, Expr.everywhere, Expr.isWritable]
          using hcond
    next =>
      refine (yields_expect _).bind fun _ _ => (yields_parameters hstop n).bind fun params hp =>
        (yields_expect _).bind fun _ _ => body.bind fun b hb => yields_pure ?_
      have hfunc : params.all isName = true ∧ Block.Writable b := ⟨hp, hb⟩
      simpa [Expr.Writable, Block.Writable, Block.everywhere, Expr.everywhere, Expr.isWritable]
        using hfunc
    next => exact yields_fail _
    next => exact yields_fail _

theorem yields_continuation (hstop : stop.value = .eof) (level : Nat) {left : Expr Unit}
    (hleft : left.Writable) : ∀ n, (continuation stop level left n).Yields Expr.Writable
  | 0 => yields_exhausted
  | n + 1 => by
    have expr (level : Nat) := yields_expression hstop level n
    refine yields_peek_bind fun t => ?_
    split
    next =>
      refine yields_skip.bind fun _ _ => (yields_items hstop _ n).bind fun es hes =>
        yields_continuation hstop level ?_ n
      have hcall : left.Writable ∧ WritableExprs es := ⟨hleft, hes⟩
      simpa [Expr.Writable, WritableExprs, Expr.everywhere, Expr.isWritable] using hcall
    next =>
      refine yields_skip.bind fun _ _ => (expr 0).bind fun e he => (yields_expect _).bind fun _ _ =>
        yields_continuation hstop level ?_ n
      have hindex : left.Writable ∧ e.Writable := ⟨hleft, he⟩
      simpa [Expr.Writable, Expr.everywhere, Expr.isWritable] using hindex
    next =>
      split
      next op _ =>
        refine Yields.ite (yields_skip.bind fun _ _ => (expr _).bind fun e he =>
          yields_continuation hstop level ?_ n) (yields_pure hleft)
        have hoperation : left.Writable ∧ e.Writable := ⟨hleft, he⟩
        simpa [Expr.Writable, Expr.everywhere, Expr.isWritable] using hoperation
      next => exact yields_pure hleft

theorem yields_items (hstop : stop.value = .eof) (close : Mark) :
    ∀ n, (items stop close n).Yields WritableExprs
  | 0 => yields_exhausted
  | n + 1 => yields_peek_bind fun _ => Yields.ite
      (yields_skip.bind fun _ _ => yields_pure rfl)
      ((yields_expression hstop 0 n).bind fun _ he =>
        (yields_moreItems hstop close n).bind fun _ hes =>
          yields_pure (writableExprs_cons_iff.2 ⟨he, hes⟩))

theorem yields_moreItems (hstop : stop.value = .eof) (close : Mark) :
    ∀ n, (moreItems stop close n).Yields WritableExprs
  | 0 => yields_exhausted
  | n + 1 => yields_peek_bind fun _ => Yields.ite
      (yields_skip.bind fun _ _ => (yields_expression hstop 0 n).bind fun _ he =>
        (yields_moreItems hstop close n).bind fun _ hes =>
          yields_pure (writableExprs_cons_iff.2 ⟨he, hes⟩))
      ((yields_expect _).bind fun _ _ => yields_pure rfl)

end

end Parse

/-- Whatever errors were recorded, the program that was read can be written. -/
theorem parse_writable (source : String) : Block.Writable (parse source).program := by
  let s := Stream.ofText source
  have hyields := Parse.yields_statements (rfl : s.eof.value = .eof) false s.fuel
    ⟨s.eof, s.tokens, []⟩ (tokensFrom_lexed 0 source.toList)
  obtain ⟨p, c, hparse, hp, -⟩ := s.parse_spec hyields
  have hprogram : (parse source).program = p := congrArg Parsed.program hparse
  exact hprogram ▸ hp

end Scriptlet
