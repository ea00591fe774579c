import Scriptlet.Text.Literals
import Scriptlet.Token.Lexer
import Scriptlet.Tree.Printer

/-!
# Tokens and their texts

What is known of the tokens that are read from a text, and which tokens are read from a printed
piece of a program. `Lexes P text ts` says that the text is cut into these tokens in front of every
rest with `P`; such pieces can be put together (`Lexes.append`). A name or a number needs a rest
that does not go on with it (`Apart`); a closing bracket or quote needs nothing.
-/

namespace Scriptlet

open Text

/-- Whether a word can be a name: it is made of the right characters and is no keyword. -/
def isName (word : String) : Bool :=
  match word.toList with
  | [] => false
  | c :: cs => isNameStart c && cs.all isNameChar && (Keyword.ofText? word).isNone

def Token.Lexed : Token → Prop
  | .eof => False
  | .identifier name => isName name = true
  | _ => True

theorem Token.Lexed.ne_eof {t : Token} (h : t.Lexed) : t ≠ .eof := by
  rintro rfl
  exact h

theorem scanString_lexed (quote : Char) (taken value text : List Char) :
    (scanString quote taken value text).token.Lexed := by
  fun_induction scanString quote taken value text <;> trivial

theorem ofWord_lexed {c : Char} {cs : List Char} (hc : isNameStart c = true)
    (hcs : cs.all isNameChar = true) : (Token.ofWord (String.ofList (c :: cs))).Lexed := by
  unfold Token.ofWord
  split
  next => trivial
  next h => simp only [Token.Lexed, isName, String.toList_ofList, hc, hcs, h, Option.isNone_none,
    Bool.and_self]

theorem scan_lexed (c : Char) (rest : List Char) : (scan c rest).token.Lexed := by
  unfold scan
  split
  · trivial
  · split
    · exact scanString_lexed _ _ _ _
    · split
      · trivial
      · split
        next hc => exact ofWord_lexed hc List.all_takeWhile
        next => trivial

theorem tokensFrom_lexed (place : Nat) (text : List Char) :
    ∀ t ∈ tokensFrom place text, t.value.Lexed := by
  fun_induction tokensFrom place text with
  | case1 => simp
  | case2 place text c rest _ start piece span ih =>
    intro t ht
    rcases List.mem_cons.1 ht with rfl | ht
    · exact scan_lexed c rest
    · exact ih t ht

/-! ## The tokens of a text -/

def lexemes (text : List Char) : List Token :=
  (tokensFrom 0 text).map (·.value)

/-- Where a text begins says nothing about its tokens. -/
theorem values_tokensFrom (place : Nat) (text : List Char) :
    (tokensFrom place text).map (·.value) = lexemes text := by
  have h (place' : Nat) : (tokensFrom place text).map (·.value) =
      (tokensFrom place' text).map (·.value) := by
    fun_induction tokensFrom place text generalizing place' with
    | case1 place text h =>
      rw [tokensFrom.eq_def place']
      split
      next => rfl
      next h' => simp [h] at h'
    | case2 place text c rest h start piece span ih =>
      rw [tokensFrom.eq_def place']
      split
      next h' => simp [h] at h'
      next c' rest' h' =>
        obtain ⟨rfl, rfl⟩ := List.cons.inj (h.symm.trans h')
        simp only [List.map_cons, List.cons.injEq]
        exact ⟨rfl, ih _⟩
  exact h 0

@[simp] theorem lexemes_nil : lexemes [] = [] := by
  simp [lexemes, tokensFrom]

theorem lexemes_of_blank {c : Char} (rest : List Char) (h : isBlank c = true) :
    lexemes (c :: rest) = lexemes rest := by
  simp only [lexemes]
  rw [tokensFrom, tokensFrom, List.dropWhile_cons_of_pos h]
  split
  · rfl
  · simp [values_tokensFrom]

theorem lexemes_of_not_blank {c : Char} (rest : List Char) (h : isBlank c = false) :
    lexemes (c :: rest) = (scan c rest).token :: lexemes (scan c rest).rest := by
  simp only [lexemes]
  rw [tokensFrom, List.dropWhile_cons_of_neg (by simp [h])]
  simp [values_tokensFrom]

/-! ## Texts that can stand in front of others -/

/-- A rest that goes on with no word, number or mark in front of it. -/
def Apart (rest : List Char) : Prop :=
  ∀ c ∈ rest.head?, isNameChar c = false ∧ c ≠ '='

theorem apart_nil : Apart [] := by
  simp [Apart]

theorem apart_cons {c : Char} (rest : List Char) (h : isNameChar c = false ∧ c ≠ '=') :
    Apart (c :: rest) := by
  simpa [Apart] using h

def Lexes (P : List Char → Prop) (text : String) (ts : List Token) : Prop :=
  ∀ rest, P rest → lexemes (text.toList ++ rest) = ts ++ lexemes rest

namespace Lexes

variable {P Q : List Char → Prop} {a b : String} {ts us : List Token}

theorem mono (h : Lexes P a ts) (hP : ∀ rest, Q rest → P rest) : Lexes Q a ts :=
  fun rest hrest => h rest (hP rest hrest)

theorem append (ha : Lexes P a ts) (hb : Lexes Q b us) (h : ∀ rest, Q rest → P (b.toList ++ rest)) :
    Lexes Q (a ++ b) (ts ++ us) := by
  intro rest hrest
  rw [String.toList_append, List.append_assoc, ha _ (h rest hrest), hb rest hrest,
    List.append_assoc]

theorem cast (h : Lexes P a ts) (heq : ts = us) : Lexes P a us :=
  heq ▸ h

theorem of_eq (h : Lexes P a ts) (heq : a = b) : Lexes P b ts :=
  heq ▸ h

/-- Nothing has to be known of what follows a text that ends in a bracket or a quote. -/
theorem closed_append (ha : Lexes (fun _ => True) a ts) (hb : Lexes Q b us) :
    Lexes Q (a ++ b) (ts ++ us) :=
  ha.append hb fun _ _ => trivial

end Lexes

theorem lexes_empty (P : List Char → Prop) : Lexes P "" [] := fun _ _ => rfl

theorem lexes_blank : Lexes (fun _ => True) " " [] := fun rest _ =>
  lexemes_of_blank rest (by decide)

/-- Marks that are not the first character of another one. -/
theorem lexes_mark (m : Mark) (h : m ∈ [Mark.minus, .comma, .semicolon, .leftParen, .rightParen,
    .leftBrace, .rightBrace, .leftBracket, .rightBracket]) :
    Lexes (fun _ => True) m.text [.mark m] := by
  intro rest _
  cases m <;> first | exact lexemes_of_not_blank rest (by decide) | simp at h

/-- Marks that could be the first character of another one, if they are not. -/
theorem read?_eq_self {c d : Char} {m : Mark} (rest : List Char)
    (h : (c, m) ∈ [('=', Mark.assign), ('<', .lessThan), ('>', .greaterThan)]) (hd : d ≠ '=') :
    Mark.read? c (d :: rest) = some (m, d :: rest) := by
  simp only [List.mem_cons, Prod.mk.injEq, List.not_mem_nil, or_false] at h
  rcases h with ⟨rfl, rfl⟩ | ⟨rfl, rfl⟩ | ⟨rfl, rfl⟩
  all_goals
    unfold Mark.read?
    split <;> simp_all

theorem lexes_mark_of_apart (m : Mark) : Lexes Apart m.text [.mark m] := by
  intro rest hrest
  rcases rest with _ | ⟨d, rest⟩
  · cases m <;> exact lexemes_of_not_blank _ (by decide)
  have hd : d ≠ '=' := (hrest d rfl).2
  have hmark {c : Char} {m : Mark} (hc : isBlank c = false)
      (hm : Mark.read? c (d :: rest) = some (m, d :: rest)) :
      lexemes (c :: d :: rest) = .mark m :: lexemes (d :: rest) := by
    rw [lexemes_of_not_blank _ hc]
    simp only [scan, hm]
  cases m with
  | assign => exact hmark (c := '=') (by decide) (read?_eq_self rest (by simp) hd)
  | lessThan => exact hmark (c := '<') (by decide) (read?_eq_self rest (by simp) hd)
  | greaterThan => exact hmark (c := '>') (by decide) (read?_eq_self rest (by simp) hd)
  | _ => exact lexemes_of_not_blank _ (by decide)

/-! ## Words -/

theorem isNameChar_of_isNameStart {c : Char} (h : isNameStart c = true) :
    isNameChar c = true := by
  simp [isNameChar, h]

theorem isNameChar_of_isDigit {c : Char} (h : c.isDigit = true) : isNameChar c = true := by
  simp [isNameChar, h]

theorem isBlank_eq_false {c : Char} (h : isNameChar c = true) : isBlank c = false := by
  have hblank : ∀ range ∈ blankRanges, ∀ n ∈ List.range' range.1 (range.2 + 1 - range.1),
      isNameChar (Char.ofNat n) = false := by
    decide +kernel
  cases hb : isBlank c with
  | false => rfl
  | true =>
    obtain ⟨range, hrange, hlo, hhi⟩ := Ranges.covers_iff.1 hb
    have hn := hblank range hrange c.toNat (by simp only [List.mem_range'_1]; omega)
    rw [Char.ofNat_toNat, h] at hn
    cases hn

theorem read?_eq_none {c : Char} (rest : List Char) (h : isNameChar c = true) :
    Mark.read? c rest = none := by
  unfold Mark.read?
  split <;> first | rfl | exact absurd h (by decide)

theorem isDigit_eq_false {c : Char} (h : isNameStart c = true) : c.isDigit = false := by
  have hdigits : ∀ n ∈ List.range' 48 10, isNameStart (Char.ofNat n) = false := by
    decide +kernel
  cases hd : c.isDigit with
  | false => rfl
  | true =>
    obtain ⟨hlo, hhi⟩ : 48 ≤ c.toNat ∧ c.toNat ≤ 57 := Char.isDigit_iff_toNat.1 hd
    have hn := hdigits c.toNat (by simp only [List.mem_range'_1]; omega)
    rw [Char.ofNat_toNat, h] at hn
    cases hn

theorem not_quote {c : Char} (h : isNameChar c = true) : ¬ (c = '"' ∨ c = '\'') := by
  rintro (rfl | rfl) <;> exact absurd h (by decide)

theorem takeWhile_append_apart {p : Char → Bool} {cs rest : List Char} (hcs : cs.all p = true)
    (hrest : ∀ c ∈ rest.head?, p c = false) :
    (cs ++ rest).takeWhile p = cs ∧ (cs ++ rest).dropWhile p = rest := by
  have hcs := List.all_eq_true.1 hcs
  rw [List.takeWhile_append_of_pos hcs, List.dropWhile_append_of_pos hcs]
  cases rest with
  | nil => simp
  | cons c rest =>
    have hc : ¬ p c = true := by simp [hrest c rfl]
    simp [List.takeWhile_cons_of_neg hc, List.dropWhile_cons_of_neg hc]

theorem lexes_word {word : String} {c : Char} {cs : List Char} (hword : word.toList = c :: cs)
    (hc : isNameStart c = true) (hcs : cs.all isNameChar = true) :
    Lexes Apart word [Token.ofWord word] := by
  intro rest hrest
  obtain ⟨htake, hdrop⟩ := takeWhile_append_apart hcs fun c hc => (hrest c hc).1
  have hname := isNameChar_of_isNameStart hc
  rw [hword, List.cons_append, lexemes_of_not_blank _ (isBlank_eq_false hname)]
  simp [scan, read?_eq_none _ hname, not_quote hname, isDigit_eq_false hc, hc, htake, hdrop,
    ← hword]

theorem lexes_name {name : String} (h : isName name = true) :
    Lexes Apart name [.identifier name] := by
  unfold isName at h
  split at h
  next => cases h
  next c cs hname =>
    simp only [Bool.and_eq_true, Option.isNone_iff_eq_none] at h
    have hword := lexes_word hname h.1.1 h.1.2
    rwa [Token.ofWord, h.2] at hword

theorem lexes_keyword (k : Keyword) : Lexes Apart k.text [.keyword k] := by
  cases k <;> exact lexes_word rfl (by decide) (by decide)

theorem lexes_infixOp (op : InfixOp) : Lexes Apart op.text [op.token] := by
  cases op with
  | add => exact lexes_mark_of_apart .plus
  | sub => exact lexes_mark_of_apart .minus
  | mul => exact lexes_mark_of_apart .star
  | div => exact lexes_mark_of_apart .slash
  | mod => exact lexes_mark_of_apart .percent
  | eq => exact lexes_mark_of_apart .equalEqual
  | ne => exact lexes_mark_of_apart .bangEqual
  | lt => exact lexes_mark_of_apart .lessThan
  | gt => exact lexes_mark_of_apart .greaterThan
  | le => exact lexes_mark_of_apart .lessEqual
  | ge => exact lexes_mark_of_apart .greaterEqual
  | and => exact lexes_keyword .and
  | or => exact lexes_keyword .or

theorem lexes_prefixOp (op : PrefixOp) : Lexes Apart op.text [op.token] := by
  cases op
  · exact lexes_mark_of_apart .minus
  · exact lexes_keyword .not

/-! ## Numbers and strings -/

theorem lexes_digits {digits : String} {c : Char} {cs : List Char}
    (hdigits : digits.toList = c :: cs) (hc : c.isDigit = true) (hcs : cs.all Char.isDigit = true) :
    Lexes Apart digits [.integer digits] := by
  intro rest hrest
  have hdigit (c : Char) (hc : c ∈ rest.head?) : c.isDigit = false := by
    have hc := (hrest c hc).1
    simp only [isNameChar, Bool.or_eq_false_iff] at hc
    exact hc.2
  obtain ⟨htake, hdrop⟩ := takeWhile_append_apart hcs hdigit
  have hname := isNameChar_of_isDigit hc
  rw [hdigits, List.cons_append, lexemes_of_not_blank _ (isBlank_eq_false hname)]
  simp [scan, read?_eq_none _ hname, not_quote hname, hc, htake, hdrop, ← hdigits]

theorem toList_decimal {n : Int64} (h : 0 ≤ n.toInt) :
    (decimal n).toList = Nat.toDigits 10 n.toInt.toNat := by
  obtain ⟨m, hm⟩ := Int.eq_ofNat_of_zero_le h
  have hrepr : decimal n = m.repr := by
    rw [decimal, hm]
    rfl
  simp [hrepr, hm]

theorem lexes_decimal {n : Int64} (h : 0 ≤ n.toInt) :
    Lexes Apart (decimal n) [.integer (decimal n)] := by
  obtain ⟨c, cs, hcs⟩ := List.exists_cons_of_ne_nil
    (Nat.toDigits_ne_nil : Nat.toDigits 10 n.toInt.toNat ≠ [])
  have hdigit : ∀ d ∈ c :: cs, d.isDigit = true := fun d hd =>
    Nat.isDigit_of_mem_toDigits (by decide) (by decide) (hcs ▸ hd)
  exact lexes_digits ((toList_decimal h).trans hcs) (hdigit c (by simp))
    (List.all_eq_true.2 fun d hd => hdigit d (List.mem_cons_of_mem _ hd))

theorem decimalValue_decimal {n : Int64} (h : 0 ≤ n.toInt) :
    decimalValue (decimal n).toList = n.toInt.toNat := by
  rw [toList_decimal h]
  exact Nat.ofDigitChars_ten_toDigits

/-- What is written between quotes is read as it was. -/
theorem scanString_escape (taken value cs rest : List Char) :
    (scanString '"' taken value (escape cs ++ '"' :: rest)).token =
        .string (String.ofList (value.reverse ++ cs)) ∧
      (scanString '"' taken value (escape cs ++ '"' :: rest)).rest = rest := by
  induction cs generalizing taken value with
  | nil =>
    rw [escape_nil, List.nil_append, scanString.eq_def]
    simp
  | cons c cs ih =>
    cases hc : escapeLetter? c with
    | none =>
      have hne : c ≠ '"' ∧ c ≠ '\\' := by
        constructor <;> rintro rfl <;> cases hc
      have htext : escape (c :: cs) = c :: escape cs := by simp [escapeChar, hc]
      rw [htext, List.cons_append, scanString.eq_def]
      simpa [hne] using ih (c :: taken) (c :: value)
    | some letter =>
      have htext : escape (c :: cs) = '\\' :: letter :: escape cs := by simp [escapeChar, hc]
      rw [htext, List.cons_append, List.cons_append, scanString, if_neg (by decide), if_pos rfl,
        unescape?_of_escapeLetter? hc]
      simpa using ih (letter :: '\\' :: taken) (c :: value)

theorem lexes_quoted (value : String) : Lexes (fun _ => True) (quoted value) [.string value] := by
  intro rest _
  have htext : (quoted value).toList ++ rest = '"' :: (escape value.toList ++ '"' :: rest) := by
    simp [quoted]
  obtain ⟨htoken, hrest⟩ := scanString_escape ['"'] [] value.toList rest
  rw [htext, lexemes_of_not_blank _ (by decide)]
  simp only [List.reverse_nil, List.nil_append, String.ofList_toList] at htoken
  simp [scan, Mark.read?, htoken, hrest]

end Scriptlet
