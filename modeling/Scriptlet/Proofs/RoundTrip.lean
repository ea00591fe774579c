import Scriptlet.Proofs.Acceptance
import Scriptlet.Proofs.Writable

/-!
# Printed programs are read back

A program is printed with brackets around every operator, so what is printed is a sentence of the
grammar with the same tree, with two exceptions. A condition is printed without brackets of its own,
and statements with nothing between them. So conditions have to bring brackets with them
(`Expr.hasBracketedCondition`), and an expression in front of another statement must neither end in
a word nor be gone on with by a bracket (`Block.isSeparated`).
-/

namespace Scriptlet

open Grammar

section

variable {ι : Type}

def Expr.isWord : Expr ι → Bool
  | .ident _ | .int _ | .bool _ | .nil => true
  | _ => false

def Expr.isBracketed : Expr ι → Bool
  | .prefixOp .. | .infixOp .. | .index .. => true
  | _ => false

def Expr.hasBracketedCondition : Expr ι → Bool
  | .cond c _ _ => c.isBracketed
  | _ => true

/-- Whether a text begins with a bracket that an expression in front of it would go on with. -/
def opensBracket (text : String) : Bool :=
  match text.toList with
  | '(' :: _ | '[' :: _ => true
  | _ => false

/-- Whether each expression in front of another statement stays apart from it when printed. -/
def Block.isSeparated : Block ι → Bool
  | .expr e :: s :: ss => !e.isWord && !opensBracket s.text && Block.isSeparated (s :: ss)
  | _ :: ss => Block.isSeparated ss
  | [] => true

/-- The checks of expressions under which a tree is read back. -/
def Expr.isPrintable (e : Expr ι) : Bool :=
  e.isWritable && e.hasBracketedCondition

def Block.isPrintable (b : Block ι) : Bool :=
  b.isWritable && b.isSeparated

end

/-- An expression is printed as a text of these tokens, which are a sentence with its tree. -/
structure Expr.Prints (e : Expr Unit) (ts : List Token) : Prop where
  sentence : Suffixed ts e
  lexes : Lexes (fun rest => e.isWord = true → Apart rest) e.text ts
  bracketed : e.isBracketed = true → ∃ us, ts = parens us ∧ Binary 0 us e
  opens : ∀ t ∈ ts.head?, Continues t → opensBracket e.text = true

theorem Expr.Prints.lexes_apart {e : Expr Unit} {ts : List Token} (h : e.Prints ts) :
    Lexes Apart e.text ts :=
  h.lexes.mono fun _ hrest _ => hrest

structure Block.Prints (b : Program) (ts : List Token) : Prop where
  sentence : Statements ts b
  lexes : Lexes Apart (blockText b) ts
  opens : ∀ t ∈ ts.head?, Continues t → ∃ s ∈ b.head?, opensBracket s.text = true

theorem continues_iff {t : Token} : Continues t ↔
    (InfixOp.ofToken? t).isSome = true ∨ t = .mark .leftParen ∨ t = .mark .leftBracket := by
  rw [Option.isSome_iff_exists]
  constructor
  · rintro (op | _ | _)
    · exact .inl ⟨op, InfixOp.ofToken?_eq_some_iff.2 rfl⟩
    · exact .inr (.inl rfl)
    · exact .inr (.inr rfl)
  · rintro (⟨op, hop⟩ | rfl | rfl)
    · exact InfixOp.ofToken?_eq_some_iff.1 hop ▸ .operator op
    · exact .call
    · exact .index

theorem opensBracket_append {a : String} (b : String) (h : opensBracket a = true) :
    opensBracket (a ++ b) = true := by
  unfold opensBracket at h ⊢
  rw [String.toList_append]
  split at h
  next ha => simp [ha]
  next ha => simp [ha]
  next => cases h

/-! ## Pieces of text -/

theorem apart_mark (m : Mark) (h : m ∈ [Mark.comma, .semicolon, .leftParen, .rightParen,
    .leftBrace, .rightBrace, .leftBracket, .rightBracket]) (rest : List Char) :
    Apart (m.text.toList ++ rest) := by
  cases m <;> first | exact apart_cons _ (by decide) | simp at h

theorem apart_blank (rest : List Char) : Apart (" ".toList ++ rest) :=
  apart_cons _ (by decide)

theorem lexes_keyword_blank (k : Keyword) :
    Lexes (fun _ => True) (k.text ++ " ") [.keyword k] :=
  (lexes_keyword k).append lexes_blank fun rest _ => apart_blank rest

theorem lexes_enclosed (opening closing : Mark) {text : String} {ts : List Token}
    (h : Lexes Apart text ts)
    (ho : opening ∈ [Mark.leftParen, .leftBrace, .leftBracket])
    (hc : closing ∈ [Mark.rightParen, .rightBrace, .rightBracket]) :
    Lexes (fun _ => True) (opening.text ++ text ++ closing.text) (enclosed opening closing ts) := by
  have hopening : Lexes (fun _ => True) opening.text [.mark opening] :=
    lexes_mark opening (by revert ho; cases opening <;> simp)
  have hclosing : Lexes (fun _ => True) closing.text [.mark closing] :=
    lexes_mark closing (by revert hc; cases closing <;> simp)
  exact (hopening.closed_append h).append hclosing fun rest _ =>
    apart_mark _ (by revert hc; cases closing <;> simp) rest

theorem lexes_blank_brace : Lexes (fun _ => True) " \x7b" [.mark .leftBrace] :=
  (lexes_blank.closed_append (lexes_mark .leftBrace (by simp))).of_eq rfl

theorem lexes_else : Lexes (fun _ => True) "\x7d else \x7b"
    [.mark .rightBrace, .keyword .else_, .mark .leftBrace] :=
  ((lexes_mark .rightBrace (by simp)).closed_append
    (lexes_blank.closed_append ((lexes_keyword .else_).append lexes_blank_brace
      fun rest _ => apart_blank ('\x7b' :: rest)))).of_eq rfl

theorem lexes_func : Lexes (fun _ => True) "func(" [.keyword .func, .mark .leftParen] :=
  ((lexes_keyword .func).append (lexes_mark .leftParen (by simp))
    fun rest _ => apart_mark .leftParen (by simp) rest).of_eq rfl

theorem lexes_comma : Lexes (fun _ => True) ", " [.mark .comma] :=
  ((lexes_mark .comma (by simp)).closed_append lexes_blank).of_eq rfl

theorem lexes_singleton {e : Expr Unit} {text : String} {ts : List Token} (he : Binary 0 ts e)
    (htext : Lexes Apart text ts) : Arguments ts [e] ∧ Lexes Apart (commaSeparated [text]) ts := by
  refine ⟨?_, ?_⟩
  · simpa using Arguments.cons he .nil
  · rwa [commaSeparated, String.intercalate_singleton]

theorem lexes_cons {e e' : Expr Unit} {es : List (Expr Unit)} {text text' : String}
    {texts : List String} {ts us : List Token} (he : Binary 0 ts e) (htext : Lexes Apart text ts)
    (hes : Arguments us (e' :: es)) (htexts : Lexes Apart (commaSeparated (text' :: texts)) us) :
    Arguments (ts ++ .mark .comma :: us) (e :: e' :: es) ∧
      Lexes Apart (commaSeparated (text :: text' :: texts)) (ts ++ .mark .comma :: us) := by
  refine ⟨?_, ?_⟩
  · cases hes with
    | cons he' hes => exact .cons he (.cons he' hes)
  · rw [commaSeparated, String.intercalate_cons_cons]
    have hfirst := htext.append lexes_comma fun rest _ => apart_mark .comma (by simp) (' ' :: rest)
    exact (hfirst.closed_append htexts).cast (by simp)

theorem lexes_parameters {params : List String} (h : params.all isName = true) :
    Lexes Apart (commaSeparated params) (parameterTokens params) := by
  induction params with
  | nil => exact lexes_empty _
  | cons name names ih =>
    simp only [List.all_cons, Bool.and_eq_true] at h
    cases names with
    | nil =>
      rw [commaSeparated, String.intercalate_singleton]
      exact lexes_name h.1
    | cons other names =>
      rw [commaSeparated, String.intercalate_cons_cons]
      exact ((lexes_name h.1).append lexes_comma fun rest _ => apart_mark .comma (by simp)
        (' ' :: rest)).closed_append (ih h.2)

/-! ## Trees from their parts -/

/-- An expression alone is a program. -/
theorem statements_singleton {e : Expr Unit} {ts : List Token} (he : Binary 0 ts e) :
    Statements ts [.expr e] := by
  have hbare : Statement (ts ++ []) (.expr e) [] := .expr he (.bare (by simp))
  simpa using Statements.cons hbare .nil

theorem primary_decimal {n : Int64} (h : 0 ≤ n.toInt) :
    Primary [.integer (decimal n)] (.int n) := by
  have hvalue := decimalValue_decimal h
  have hlt := n.toInt_lt
  have hprimary := @Primary.int (decimal n) (by omega)
  have hself : Int64.ofNat n.toInt.toNat = n :=
    Int64.ofNat_toNatClampNeg n (Int64.le_iff_toInt_le.2 h)
  rwa [hvalue, hself] at hprimary

theorem Expr.prints_of_closed {e : Expr Unit} {ts : List Token} (h : Suffixed ts e)
    (hlexes : Lexes (fun _ => True) e.text ts) (hbracketed : e.isBracketed = false)
    (hopens : ∀ t ∈ ts.head?, Continues t → opensBracket e.text = true) : e.Prints ts :=
  ⟨h, hlexes.mono fun _ _ => trivial, by simp [hbracketed], hopens⟩

theorem Expr.prints_of_bracketed {e : Expr Unit} {us : List Token} (h : Binary 0 us e)
    (hlexes : Lexes (fun _ => True) e.text (parens us)) (hopens : opensBracket e.text = true) :
    e.Prints (parens us) :=
  ⟨.primary (.group h), hlexes.mono fun _ _ => trivial, fun _ => ⟨us, rfl, h⟩, fun _ _ _ => hopens⟩

namespace Expr

variable {e c l r f : Expr Unit} {es : List (Expr Unit)} {b d : Program} {ts us vs : List Token}

theorem prints_ident {name : String} (h : isName name = true) :
    (ident name).Prints [.identifier name] :=
  ⟨.primary .ident, (lexes_name h).mono fun _ h => h rfl, by simp [isBracketed],
    by simp [continues_iff, InfixOp.ofToken?]⟩

theorem prints_int {n : Int64} (h : 0 ≤ n.toInt) : (int n).Prints [.integer (decimal n)] :=
  ⟨.primary (primary_decimal h), (lexes_decimal h).mono fun _ h => h rfl,
    by simp [isBracketed], by simp [continues_iff, InfixOp.ofToken?]⟩

theorem prints_keyword {k : Keyword} (h : Primary [.keyword k] e) (htext : e.text = k.text)
    (hword : e.isWord = true) (hk : k ∉ [Keyword.and, .or]) : e.Prints [.keyword k] where
  sentence := .primary h
  lexes := by
    rw [htext]
    exact (lexes_keyword k).mono fun _ h => h hword
  bracketed := by cases e <;> simp [isWord, isBracketed] at hword ⊢
  opens := by
    revert hk
    cases k <;> simp [continues_iff, InfixOp.ofToken?]

theorem prints_str (value : String) : (str value).Prints [.string value] :=
  prints_of_closed (.primary .str) (lexes_quoted value) rfl
    (by simp [continues_iff, InfixOp.ofToken?])

theorem prints_list (h : Arguments ts es)
    (hlexes : Lexes Apart (commaSeparated (exprTexts es)) ts) : (list es).Prints (brackets ts) := by
  refine prints_of_closed (.primary (.list h)) ?_ rfl fun _ _ _ => ?_
  · rw [Expr.text]
    exact lexes_enclosed .leftBracket .rightBracket hlexes (by simp) (by simp)
  · rw [Expr.text, opensBracket]
    simp

theorem prints_prefixOp (op : PrefixOp) (he : e.Prints ts) :
    (prefixOp op e).Prints (parens (op.token :: parens ts)) := by
  have hunary : Unary (op.token :: parens ts) (.prefixOp op e) :=
    .prefixOp (.suffixed (.primary (.group (he.sentence.binary (Nat.zero_le _)))))
  refine prints_of_bracketed ((Binary.unary hunary).mono (Nat.zero_le _) (Nat.le_refl _)) ?_ ?_
  · rw [Expr.text]
    have hopening := ((lexes_mark .leftParen (by simp)).closed_append
      (lexes_prefixOp op)).append (lexes_mark .leftParen (by simp))
      fun rest _ => apart_mark _ (by simp) rest
    have hclosing : Lexes (fun _ => True) "))" [.mark .rightParen, .mark .rightParen] :=
      ((lexes_mark .rightParen (by simp)).closed_append
        (lexes_mark .rightParen (by simp))).of_eq rfl
    have htext := (hopening.closed_append he.lexes).append hclosing
      fun rest _ _ => apart_mark .rightParen (by simp) (')' :: rest)
    exact htext.cast (by simp [parens, enclosed])
  · rw [Expr.text, opensBracket]
    simp

theorem prints_infixOp (op : InfixOp) (hl : l.Prints ts) (hr : r.Prints us) :
    (infixOp op l r).Prints (parens (ts ++ op.token :: us)) := by
  obtain ⟨k, hk⟩ := Nat.exists_eq_succ_of_ne_zero (Nat.ne_of_gt op.level_pos)
  have hle : op.level ≤ layers.length := Nat.le_of_lt_succ op.level_lt_prefix
  have hoperation : Binary k (ts ++ op.token :: us) (.infixOp op l r) :=
    .infixOp (mem_layer_iff.2 hk) (hl.sentence.binary (by omega)) (hr.sentence.binary (by omega))
  refine prints_of_bracketed (hoperation.mono (Nat.zero_le _) (by omega)) ?_ ?_
  · rw [Expr.text]
    have hleft := ((lexes_mark .leftParen (by simp)).closed_append hl.lexes).append
      lexes_blank fun rest _ _ => apart_blank rest
    have hop := (hleft.closed_append (lexes_infixOp op)).append lexes_blank
      fun rest _ => apart_blank rest
    have hright := (hop.closed_append hr.lexes).append (lexes_mark .rightParen (by simp))
      fun rest _ _ => apart_mark _ (by simp) rest
    exact hright.cast (by simp [parens, enclosed])
  · rw [Expr.text, opensBracket]
    simp

theorem prints_index (he : e.Prints ts) (hr : r.Prints us) :
    (index e r).Prints (parens (ts ++ brackets us)) := by
  have hindex : Suffixed (ts ++ brackets us) (.index e r) :=
    he.sentence.index (hr.sentence.binary (Nat.zero_le _))
  refine prints_of_bracketed (hindex.binary (Nat.zero_le _)) ?_ ?_
  · rw [Expr.text]
    have htarget := ((lexes_mark .leftParen (by simp)).closed_append he.lexes).append
      (lexes_mark .leftBracket (by simp)) fun rest _ _ => apart_mark _ (by simp) rest
    have hclosing : Lexes (fun _ => True) "])" [.mark .rightBracket, .mark .rightParen] :=
      ((lexes_mark .rightBracket (by simp)).closed_append
        (lexes_mark .rightParen (by simp))).of_eq rfl
    have htext := (htarget.closed_append hr.lexes).append hclosing
      fun rest _ _ => apart_mark .rightBracket (by simp) (')' :: rest)
    exact htext.cast (by simp [parens, brackets, enclosed])
  · rw [Expr.text, opensBracket]
    simp

theorem prints_cond (hc : c.Prints ts) (hbracketed : c.isBracketed = true)
    (hb : Block.Prints b us) : (cond c b none).Prints (.keyword .if_ :: (ts ++ braces us)) := by
  obtain ⟨cs, rfl, hsentence⟩ := hc.bracketed hbracketed
  refine prints_of_closed (.primary (.cond hsentence hb.sentence)) ?_ rfl
    (by simp [continues_iff, InfixOp.ofToken?])
  rw [Expr.text]
  have hcondition := ((lexes_keyword_blank .if_).closed_append hc.lexes).append lexes_blank_brace
    fun rest _ _ => apart_blank ('\x7b' :: rest)
  have htext := (hcondition.closed_append hb.lexes).append
    (lexes_mark .rightBrace (by simp)) fun rest _ => apart_mark _ (by simp) rest
  exact htext.cast (by simp [parens, braces, enclosed])

theorem prints_condElse (hc : c.Prints ts) (hbracketed : c.isBracketed = true)
    (hb : Block.Prints b us) (hd : Block.Prints d vs) : (cond c b (some d)).Prints
      (.keyword .if_ :: (ts ++ braces us ++ .keyword .else_ :: braces vs)) := by
  obtain ⟨cs, rfl, hsentence⟩ := hc.bracketed hbracketed
  refine prints_of_closed (.primary (.condElse hsentence hb.sentence hd.sentence)) ?_ rfl
    (by simp [continues_iff, InfixOp.ofToken?])
  rw [Expr.text]
  have hcondition := ((lexes_keyword_blank .if_).closed_append hc.lexes).append lexes_blank_brace
    fun rest _ _ => apart_blank ('\x7b' :: rest)
  have hconsequence := (hcondition.closed_append hb.lexes).append lexes_else
    fun rest _ => apart_mark .rightBrace (by simp) (" else \x7b".toList ++ rest)
  have htext := (hconsequence.closed_append hd.lexes).append
    (lexes_mark .rightBrace (by simp)) fun rest _ => apart_mark _ (by simp) rest
  exact htext.cast (by simp [parens, braces, enclosed])

theorem prints_func {params : List String} (hparams : params.all isName = true)
    (hb : Block.Prints b us) : (func () params b).Prints
      (.keyword .func :: (parens (parameterTokens params) ++ braces us)) := by
  refine prints_of_closed (.primary (.func hb.sentence)) ?_ rfl
    (by simp [continues_iff, InfixOp.ofToken?])
  rw [Expr.text]
  have hclosing : Lexes (fun _ => True) ") \x7b" [.mark .rightParen, .mark .leftBrace] :=
    ((lexes_mark .rightParen (by simp)).closed_append lexes_blank_brace).of_eq rfl
  have hhead := (lexes_func.closed_append (lexes_parameters hparams)).append hclosing
    fun rest _ => apart_mark .rightParen (by simp) (" \x7b".toList ++ rest)
  have htext := (hhead.closed_append hb.lexes).append
    (lexes_mark .rightBrace (by simp)) fun rest _ => apart_mark _ (by simp) rest
  exact htext.cast (by simp [parens, braces, enclosed])

theorem prints_call (hf : f.Prints ts) (hes : Arguments us es)
    (hlexes : Lexes Apart (commaSeparated (exprTexts es)) us) :
    (call f es).Prints (ts ++ parens us) := by
  refine prints_of_closed (hf.sentence.call hes) ?_ rfl ?_
  · rw [text_call]
    have hcallee := hf.lexes.append (lexes_mark .leftParen (by simp))
      fun rest _ _ => apart_mark _ (by simp) rest
    have htext := (hcallee.closed_append hlexes).append
      (lexes_mark .rightParen (by simp)) fun rest _ => apart_mark _ (by simp) rest
    exact htext.cast (by simp [parens, enclosed])
  · intro t ht hcontinues
    obtain ⟨t', ts', rfl, -⟩ := hf.sentence.starts
    rw [text_call]
    exact opensBracket_append _ (opensBracket_append _ (opensBracket_append _
      (hf.opens t (by simpa using ht) hcontinues)))

end Expr

namespace Block

variable {e : Expr Unit} {s : Stmt Unit} {b : Program} {ts us : List Token}

theorem prints_var {name : String} (hname : isName name = true) (he : e.Prints ts)
    (hb : Block.Prints b us) : Block.Prints (.var name e :: b)
      (.keyword .var :: .identifier name :: .mark .assign ::
        (ts ++ [Token.mark .semicolon]) ++ us) where
  sentence := .cons (.var (he.sentence.binary (Nat.zero_le _)) (.semicolon us)) hb.sentence
  lexes := by
    rw [blockText, Stmt.text]
    have hassign : Lexes (fun _ => True) " = " [.mark .assign] :=
      (lexes_blank.closed_append ((lexes_mark_of_apart .assign).append lexes_blank
        fun rest _ => apart_blank rest)).of_eq rfl
    have hhead := ((lexes_keyword_blank .var).closed_append (lexes_name hname)).append hassign
      fun rest _ => apart_blank ("= ".toList ++ rest)
    have hvar := (hhead.closed_append he.lexes).append (lexes_mark .semicolon (by simp))
      fun rest _ _ => apart_mark _ (by simp) rest
    exact (hvar.closed_append hb.lexes).cast (by simp)
  opens := by simp [continues_iff, InfixOp.ofToken?]

theorem prints_ret (he : e.Prints ts) (hb : Block.Prints b us) :
    Block.Prints (.ret e :: b)
      (.keyword .return_ :: (ts ++ [Token.mark .semicolon]) ++ us) where
  sentence := .cons (.ret (he.sentence.binary (Nat.zero_le _)) (.semicolon us)) hb.sentence
  lexes := by
    rw [blockText, Stmt.text]
    have hret := ((lexes_keyword_blank .return_).closed_append he.lexes).append
      (lexes_mark .semicolon (by simp)) fun rest _ _ => apart_mark _ (by simp) rest
    exact (hret.closed_append hb.lexes).cast (by simp)
  opens := by simp [continues_iff, InfixOp.ofToken?]

theorem prints_last (he : e.Prints ts) : Block.Prints [.expr e] ts where
  sentence := statements_singleton (he.sentence.binary (Nat.zero_le _))
  lexes := by
    rw [blockText, Stmt.text, blockText]
    exact (he.lexes.append (lexes_empty Apart) fun _ h _ => h).cast (by simp)
  opens t ht hcontinues := ⟨_, rfl, he.opens t ht hcontinues⟩

/-- An expression in front of another statement has to end where it is seen to end. -/
theorem prints_expr (he : e.Prints ts) (hword : e.isWord = false)
    (hs : opensBracket s.text = false) (hb : Block.Prints (s :: b) us) :
    Block.Prints (.expr e :: s :: b) (ts ++ us) where
  sentence := by
    have hbare : Ending [] us := .bare fun t ht hcontinues => by
      obtain ⟨s', hs', hopens⟩ := hb.opens t ht hcontinues
      obtain rfl : s = s' := by simpa using hs'
      simp [hs] at hopens
    simpa using Statements.cons (.expr (he.sentence.binary (Nat.zero_le _)) hbare) hb.sentence
  lexes := by
    rw [blockText, Stmt.text]
    exact he.lexes.append hb.lexes fun _ _ h => by simp [hword] at h
  opens t ht hcontinues := by
    obtain ⟨t', ts', rfl, -⟩ := he.sentence.starts
    exact ⟨_, rfl, he.opens t (by simpa using ht) hcontinues⟩

end Block

/-! ## Trees -/

mutual

theorem Expr.prints : ∀ e : Expr Unit,
    e.everywhere Expr.isPrintable Block.isPrintable = true → ∃ ts, e.Prints ts
  | .ident name, h => by
    simp only [Expr.everywhere, Expr.isPrintable, Bool.and_eq_true] at h
    exact ⟨_, Expr.prints_ident h.1⟩
  | .int n, h => by
    simp only [Expr.everywhere, Expr.isPrintable, Bool.and_eq_true] at h
    exact ⟨_, Expr.prints_int (of_decide_eq_true h.1)⟩
  | .bool true, _ => ⟨_, Expr.prints_keyword .true_ rfl rfl (by simp)⟩
  | .bool false, _ => ⟨_, Expr.prints_keyword .false_ rfl rfl (by simp)⟩
  | .str value, _ => ⟨_, Expr.prints_str value⟩
  | .nil, _ => ⟨_, Expr.prints_keyword .nil rfl rfl (by simp)⟩
  | .list es, h => by
    simp only [Expr.everywhere, Bool.and_eq_true] at h
    obtain ⟨ts, hes, hlexes⟩ := exprs_print es h.2
    exact ⟨_, Expr.prints_list hes hlexes⟩
  | .prefixOp op e, h => by
    simp only [Expr.everywhere, Bool.and_eq_true] at h
    obtain ⟨ts, he⟩ := e.prints h.2
    exact ⟨_, Expr.prints_prefixOp op he⟩
  | .infixOp op l r, h => by
    simp only [Expr.everywhere, Bool.and_eq_true] at h
    obtain ⟨ts, hl⟩ := l.prints h.1.2
    obtain ⟨us, hr⟩ := r.prints h.2
    exact ⟨_, Expr.prints_infixOp op hl hr⟩
  | .index e r, h => by
    simp only [Expr.everywhere, Bool.and_eq_true] at h
    obtain ⟨ts, he⟩ := e.prints h.1.2
    obtain ⟨us, hr⟩ := r.prints h.2
    exact ⟨_, Expr.prints_index he hr⟩
  | .cond c b none, h => by
    simp only [Expr.everywhere, Expr.isPrintable, Bool.and_eq_true] at h
    obtain ⟨ts, hc⟩ := c.prints h.1.2
    obtain ⟨us, hb⟩ := Block.prints b h.2.1 h.2.2
    exact ⟨_, Expr.prints_cond hc h.1.1.2 hb⟩
  | .cond c b (some d), h => by
    simp only [Expr.everywhere, Expr.isPrintable, Bool.and_eq_true] at h
    obtain ⟨ts, hc⟩ := c.prints h.1.1.2
    obtain ⟨us, hb⟩ := Block.prints b h.1.2.1 h.1.2.2
    obtain ⟨vs, hd⟩ := Block.prints d h.2.1 h.2.2
    exact ⟨_, Expr.prints_condElse hc h.1.1.1.2 hb hd⟩
  | .func () params b, h => by
    simp only [Expr.everywhere, Expr.isPrintable, Bool.and_eq_true] at h
    obtain ⟨us, hb⟩ := Block.prints b h.2.1 h.2.2
    exact ⟨_, Expr.prints_func h.1.1 hb⟩
  | .call f es, h => by
    simp only [Expr.everywhere, Bool.and_eq_true] at h
    obtain ⟨ts, hf⟩ := f.prints h.1.2
    obtain ⟨us, hes, hlexes⟩ := exprs_print es h.2
    exact ⟨_, Expr.prints_call hf hes hlexes⟩

theorem exprs_print : ∀ es : List (Expr Unit),
    exprsEverywhere Expr.isPrintable Block.isPrintable es = true →
    ∃ ts, Arguments ts es ∧ Lexes Apart (commaSeparated (exprTexts es)) ts
  | [], _ => ⟨[], .nil, lexes_empty _⟩
  | [e], h => by
    simp only [exprsEverywhere, Bool.and_eq_true] at h
    obtain ⟨ts, he⟩ := e.prints h.1
    exact ⟨ts, lexes_singleton (he.sentence.binary (Nat.zero_le _)) he.lexes_apart⟩
  | e :: e' :: es, h => by
    rw [exprsEverywhere, Bool.and_eq_true] at h
    obtain ⟨ts, he⟩ := e.prints h.1
    obtain ⟨us, hes, hlexes⟩ := exprs_print (e' :: es) h.2
    exact ⟨_, lexes_cons (he.sentence.binary (Nat.zero_le _)) he.lexes_apart hes hlexes⟩

theorem Block.prints : ∀ b : Program, Block.isPrintable b = true →
    stmtsEverywhere Expr.isPrintable Block.isPrintable b = true → ∃ ts, Block.Prints b ts
  | [], _, _ => ⟨[], .nil, lexes_empty _, by simp⟩
  | .var name e :: b, hb, h => by
    rw [stmtsEverywhere, Stmt.everywhere, Bool.and_eq_true] at h
    simp only [Block.isPrintable, Block.isWritable, Block.isSeparated, List.all_cons,
      Bool.and_eq_true] at hb
    obtain ⟨ts, he⟩ := e.prints h.1
    obtain ⟨us, hb'⟩ := Block.prints b (by simp [Block.isPrintable, Block.isWritable, hb]) h.2
    exact ⟨_, Block.prints_var hb.1.1 he hb'⟩
  | .ret e :: b, hb, h => by
    rw [stmtsEverywhere, Stmt.everywhere, Bool.and_eq_true] at h
    simp only [Block.isPrintable, Block.isWritable, Block.isSeparated, List.all_cons,
      Bool.and_eq_true] at hb
    obtain ⟨ts, he⟩ := e.prints h.1
    obtain ⟨us, hb'⟩ := Block.prints b (by simp [Block.isPrintable, Block.isWritable, hb]) h.2
    exact ⟨_, Block.prints_ret he hb'⟩
  | [.expr e], hb, h => by
    rw [stmtsEverywhere, Stmt.everywhere, Bool.and_eq_true] at h
    obtain ⟨ts, he⟩ := e.prints h.1
    exact ⟨ts, Block.prints_last he⟩
  | .expr e :: s :: b, hb, h => by
    rw [stmtsEverywhere, Stmt.everywhere, Bool.and_eq_true] at h
    simp only [Block.isPrintable, Block.isWritable, Block.isSeparated, List.all_cons,
      Bool.and_eq_true, Bool.not_eq_true'] at hb
    obtain ⟨ts, he⟩ := e.prints h.1
    obtain ⟨us, hb'⟩ := Block.prints (s :: b)
      (by simp [Block.isPrintable, Block.isWritable, hb]) h.2
    exact ⟨_, Block.prints_expr he hb.2.1.1 hb.2.1.2 hb'⟩

end

/-- What was read and is printed is read back the same, if conditions are printed in brackets and
statements stay apart. It does not matter whether errors were reported when it was first read. -/
theorem parse_text_eq_self (source : String)
    (h : Block.everywhere Expr.hasBracketedCondition Block.isSeparated
      (parse source).program = true) :
    parse (Program.text (parse source).program) = ⟨(parse source).program, []⟩ := by
  have hprintable := Block.everywhere_and (parse_writable source) h
  simp only [Block.everywhere, Bool.and_eq_true] at hprintable
  obtain ⟨ts, hprints⟩ := Block.prints (parse source).program
    (by simp [Block.isPrintable, hprintable]) hprintable.2
  have hlexemes := hprints.lexes [] apart_nil
  simp only [List.append_nil, lexemes_nil] at hlexemes
  exact parse_of_lexemes (hlexemes ▸ hprints.sentence)

theorem parse_text_eq_self_of_branches :
    let source :=
      "if (a[0]) \x7b [-1](x)[2] \x7d ); if (not b) \x7b return 7; f \x7d else \x7b\x7d \"q\""
    (parse source).errors ≠ [] ∧
      Block.everywhere Expr.hasBracketedCondition Block.isSeparated (parse source).program = true ∧
      parse (Program.text (parse source).program) = ⟨(parse source).program, []⟩ := by
  intro source
  have herrors : (parse source).errors ≠ [] := by decide +kernel
  have h : Block.everywhere Expr.hasBracketedCondition Block.isSeparated
      (parse source).program = true := by
    decide +kernel
  exact ⟨herrors, h, parse_text_eq_self source h⟩

end Scriptlet
