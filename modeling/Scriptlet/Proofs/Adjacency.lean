import Mathlib.Data.List.TakeWhile
import Scriptlet.Proofs.Relocation
import Scriptlet.Proofs.Tiling

/-!
# One text behind another

A text is cut into the same tokens in front of any other text that does not go on with its last
word, number or mark. So the tokens of both together are those of the first one and then those of
the second one, with their spans moved behind it. Only a string without its end is left out of this:
it goes on into whatever follows.
-/

namespace Scriptlet

open Text

def Token.Legal (t : Token) : Prop :=
  ∀ bad, t ≠ .illegal bad

/-- Whether a token is a string without its end. Other illegal tokens do not begin with a quote. -/
def Token.isUnclosed : Token → Bool
  | illegal bad => bad.toList.head?.any isQuote
  | _ => false

theorem Token.Legal.isUnclosed_eq_false {t : Token} (h : t.Legal) : t.isUnclosed = false := by
  cases t with
  | illegal bad => exact absurd rfl (h bad)
  | _ => rfl

theorem Token.isUnclosed_illegal {quote : Char} (h : isQuote quote = true) (value : List Char) :
    (illegal (.ofList (quote :: value))).isUnclosed = true := by
  rw [isUnclosed, String.toList_ofList]
  exact h

/-! ## The first token -/

theorem takeWhile_append_of_apart {p : Char → Bool} (cs : List Char) {more : List Char}
    (hmore : ∀ c ∈ more.head?, p c = false) :
    (cs ++ more).takeWhile p = cs.takeWhile p ∧
      (cs ++ more).dropWhile p = cs.dropWhile p ++ more := by
  have hstop : ∀ c ∈ (cs.dropWhile p ++ more).head?, p c = false := by
    have hhead := List.head?_dropWhile_not p cs
    intro c hc
    cases hdrop : cs.dropWhile p with
    | nil =>
      rw [hdrop] at hc
      exact hmore c hc
    | cons d ds =>
      rw [hdrop] at hc hhead
      obtain rfl : d = c := by simpa using hc
      simpa using hhead
  have h := takeWhile_append_apart (List.all_takeWhile (l := cs)) hstop
  rwa [← List.append_assoc, List.takeWhile_append_dropWhile] at h

/-- Only an equals sign could make another mark of the last character. -/
theorem Mark.read?_append (c : Char) (cs : List Char) {more : List Char}
    (hmore : ∀ d ∈ more.head?, d ≠ '=') :
    Mark.read? c (cs ++ more) =
      (Mark.read? c cs).map fun (m, rest) => (m, rest ++ more) := by
  rcases cs with _ | ⟨d, cs⟩
  · rcases more with _ | ⟨d, more⟩
    · simp
    · have hd : d ≠ '=' := hmore d rfl
      rw [List.nil_append]
      unfold Mark.read?
      split <;> first | rfl | simp_all
  · rw [List.cons_append]
    unfold Mark.read?
    split <;> first | rfl | simp_all

/-- A string ends at its quote, and one that is none behind its bad escape, whatever follows. -/
theorem scanString_append {quote : Char} (hquote : isQuote quote = true)
    {taken value text : List Char} (more : List Char)
    (h : (scanString quote taken value text).token.isUnclosed = false) :
    scanString quote taken value (text ++ more) =
      { scanString quote taken value text with
        rest := (scanString quote taken value text).rest ++ more } := by
  fun_induction scanString quote taken value text with
  | case1 => exact absurd (Token.isUnclosed_illegal hquote _) (Bool.eq_false_iff.1 h)
  | case2 taken value rest =>
    rw [List.cons_append, scanString.eq_def]
    simp
  | case3 => exact absurd (Token.isUnclosed_illegal hquote _) (Bool.eq_false_iff.1 h)
  | case4 taken value e rest d hd hne ih =>
    rw [List.cons_append, List.cons_append, scanString.eq_def]
    simpa [hd, hne] using ih h
  | case5 taken value e rest hbad hne =>
    rw [List.cons_append, List.cons_append, scanString.eq_def]
    simp [hbad, hne]
  | case6 taken value c rest hne hescape ih =>
    rw [List.cons_append, scanString.eq_def]
    simpa [hne, hescape] using ih h

theorem scan_append {c : Char} {cs more : List Char} (h : (scan c cs).token.isUnclosed = false)
    (hmore : Apart more) :
    scan c (cs ++ more) = { scan c cs with rest := (scan c cs).rest ++ more } := by
  have hmark := Mark.read?_append c cs fun d hd => (hmore d hd).2
  have hname : ∀ d ∈ more.head?, isNameChar d = false := fun d hd => (hmore d hd).1
  have hdigit : ∀ d ∈ more.head?, d.isDigit = false := by
    intro d hd
    have hd := hname d hd
    simp only [isNameChar, Bool.or_eq_false_iff] at hd
    exact hd.2
  unfold scan at h ⊢
  rw [hmark]
  cases hread : Mark.read? c cs with
  | some read => rfl
  | none =>
    simp only [hread] at h
    simp only [Option.map_none]
    split
    next hquote =>
      rw [if_pos hquote] at h
      exact scanString_append (isQuote_iff.2 hquote) more h
    next =>
      split
      next =>
        obtain ⟨htake, hdrop⟩ := takeWhile_append_of_apart cs hdigit
        rw [htake, hdrop]
      next =>
        split
        next =>
          obtain ⟨htake, hdrop⟩ := takeWhile_append_of_apart cs hname
          rw [htake, hdrop]
        next => rfl

/-! ## All tokens -/

theorem tokensFrom_of_dropWhile {place : Nat} {text rest : List Char} {c : Char}
    (h : text.dropWhile isBlank = c :: rest) :
    tokensFrom place text =
      let span := Span.ofText (place + byteLength (text.takeWhile isBlank)) (scan c rest).text
      ⟨(scan c rest).token, span⟩ :: tokensFrom span.stop (scan c rest).rest := by
  rw [tokensFrom]
  split
  next h' => simp [h] at h'
  next h' =>
    obtain ⟨rfl, rfl⟩ := List.cons.inj (h.symm.trans h')
    rfl

theorem tokensFrom_of_not_blank (place : Nat) {c : Char} (rest : List Char)
    (h : isBlank c = false) :
    tokensFrom place (c :: rest) =
      let span := Span.ofText place (scan c rest).text
      ⟨(scan c rest).token, span⟩ :: tokensFrom span.stop (scan c rest).rest := by
  have hneg : ¬ isBlank c = true := by simp [h]
  rw [tokensFrom_of_dropWhile (List.dropWhile_cons_of_neg hneg), List.takeWhile_cons_of_neg hneg]
  rfl

theorem tokensFrom_blanks_append (place : Nat) {blanks : List Char} (more : List Char)
    (h : ∀ c ∈ blanks, isBlank c = true) :
    tokensFrom place (blanks ++ more) = tokensFrom (place + byteLength blanks) more := by
  rw [tokensFrom.eq_def place, tokensFrom.eq_def (place + _), List.dropWhile_append_of_pos h,
    List.takeWhile_append_of_pos h, byteLength_append, Nat.add_assoc]

theorem tokensFrom_append {place : Nat} {text more : List Char}
    (h : ∀ t ∈ tokensFrom place text, t.value.isUnclosed = false) (hmore : Apart more) :
    tokensFrom place (text ++ more) =
      tokensFrom place text ++ tokensFrom (place + byteLength text) more := by
  fun_induction tokensFrom place text with
  | case1 place text hblank =>
    exact tokensFrom_blanks_append place more (List.dropWhile_eq_nil_iff.1 hblank)
  | case2 place text c rest htext start piece span ih =>
    obtain ⟨hfirst, hlater⟩ := List.forall_mem_cons.1 h
    have hcut : text = text.takeWhile isBlank ++ c :: rest := by
      rw [← htext, List.takeWhile_append_dropWhile]
    have hc : isBlank c = false := isBlank_eq_false_of_dropWhile htext
    have hstop : span.stop + byteLength piece.rest = place + byteLength text := by
      have hpiece : byteLength (c :: rest) = byteLength piece.text + byteLength piece.rest := by
        rw [← byteLength_append, scan_text_append_rest]
      have htotal := congrArg byteLength hcut
      rw [byteLength_append, hpiece] at htotal
      simp only [span, Span.ofText, start, htotal, Nat.add_assoc]
    calc tokensFrom place (text ++ more)
      _ = tokensFrom start (c :: (rest ++ more)) := by
        have happend : text ++ more = text.takeWhile isBlank ++ c :: (rest ++ more) := by
          rw [← List.cons_append, ← List.append_assoc, ← hcut]
        rw [happend, tokensFrom_blanks_append place _ (List.all_eq_true.1 List.all_takeWhile)]
      _ = ⟨piece.token, span⟩ :: tokensFrom span.stop (piece.rest ++ more) := by
        rw [tokensFrom_of_not_blank start _ hc, scan_append hfirst hmore]
      _ = _ := by rw [ih hlater, hstop, List.cons_append]

theorem tokensFrom_semicolon (place : Nat) (more : List Char) :
    tokensFrom place (';' :: more) =
      ⟨.mark .semicolon, ⟨place, place + 1⟩⟩ :: tokensFrom (place + 1) more :=
  tokensFrom_of_not_blank place more (by decide)

/-- Where a text begins shows in the spans only. -/
theorem tokensFrom_add (offset place : Nat) (text : List Char) :
    tokensFrom (offset + place) text =
      (tokensFrom place text).map (Located.move (Span.shift offset)) := by
  fun_induction tokensFrom place text with
  | case1 place text hblank =>
    rw [tokensFrom]
    split
    next => rfl
    next h' => simp [hblank] at h'
  | case2 place text c rest htext start piece span ih =>
    have hstart : offset + place + byteLength (text.takeWhile isBlank) = offset + start :=
      Nat.add_assoc ..
    have hspan : Span.ofText (offset + start) piece.text = span.shift offset := by
      simp only [Span.ofText, Span.shift, span, Nat.add_assoc]
    rw [tokensFrom_of_dropWhile htext, List.map_cons, ← ih, hstart]
    dsimp only
    rw [hspan]
    rfl

end Scriptlet
