import Mathlib.Data.String.Basic
import Scriptlet.Grammar.Cursor
import Scriptlet.Proofs.Lexemes
import Scriptlet.Proofs.Reading

/-!
# Tokens and the text that they come from

The spans of the tokens tile the text: they follow each other, and between them there is white space
only. What a span covers is the token as it was written; for strings that is the literal with its
quotes. A place is a number of bytes, so all of this is about characters of any size.
-/

namespace Scriptlet

open Text

/-! ## Spans of a text -/

namespace Span

structure Fits (span : Span) (source : String) : Prop where
  start : (⟨span.start⟩ : String.Pos.Raw).IsValid source
  stop : (⟨span.stop⟩ : String.Pos.Raw).IsValid source
  start_le_stop : span.start ≤ span.stop

def textIn (span : Span) (source : String) : String :=
  String.Pos.Raw.extract source ⟨span.start⟩ ⟨span.stop⟩

structure Blank (span : Span) (source : String) : Prop where
  fits : span.Fits source
  all_blank : (span.textIn source).toList.all isBlank = true

end Span

theorem byteLength_eq_utf8Len (text : List Char) : byteLength text = String.utf8Len text := by
  induction text with
  | nil => rfl
  | cons c text ih => rw [byteLength_cons, String.utf8Len_cons, ih, Nat.add_comm]

theorem byteLength_toList (source : String) : byteLength source.toList = source.utf8ByteSize := by
  rw [byteLength_eq_utf8Len, String.utf8Len_toList]

theorem byteLength_pos {text : List Char} (h : text ≠ []) : 0 < byteLength text := by
  obtain ⟨c, text, rfl⟩ := List.exists_cons_of_ne_nil h
  exact Nat.add_pos_left c.utf8Size_pos _

section

variable {source : String} {before text behind : List Char}

theorem isValid_byteLength (h : source.toList = before ++ behind) :
    (⟨byteLength before⟩ : String.Pos.Raw).IsValid source := by
  refine String.Pos.Raw.isValid_iff_exists_append.2
    ⟨.ofList before, .ofList behind, ?_, ?_⟩
  · rw [← String.ofList_append, ← h, String.ofList_toList]
  · rw [String.rawEndPos_ofList, byteLength_eq_utf8Len]

/-- A part of a text is covered by the span from where it begins. -/
theorem Span.fits_ofText (h : source.toList = before ++ text ++ behind) :
    (Span.ofText (byteLength before) text).Fits source where
  start := isValid_byteLength (h.trans (List.append_assoc ..))
  stop := by
    simp only [Span.ofText, ← byteLength_append]
    exact isValid_byteLength h
  start_le_stop := Nat.le_add_right _ _

theorem Span.textIn_ofText (h : source.toList = before ++ text ++ behind) :
    (Span.ofText (byteLength before) text).textIn source = .ofList text := by
  have hsource : source = .ofList (before ++ text ++ behind) := by rw [← h, String.ofList_toList]
  rw [Span.textIn, hsource]
  simp only [Span.ofText, byteLength_eq_utf8Len]
  exact String.extract_of_valid before text behind

end

/-! ## Tokens as written -/

def isQuote (c : Char) : Bool :=
  c == '"' || c == '\''

theorem isQuote_iff {c : Char} : isQuote c = true ↔ c = '"' ∨ c = '\'' := by
  rw [isQuote, Bool.or_eq_true, beq_iff_eq, beq_iff_eq]

/-- How a token may be written. A string stands between two quotes of one kind, and text that is no
string though it begins like one may stand for any illegal token. All other tokens are written as
they are. -/
structure Token.Spelled (t : Token) (text : String) : Prop where
  lexeme : (∀ value, t ≠ .string value) →
    (∀ bad, t = .illegal bad → ∀ c ∈ text.toList.head?, isQuote c = false) → text = t.lexeme
  quoted : ∀ value, t = .string value →
    ∃ quote inner, isQuote quote = true ∧ text.toList = quote :: (inner ++ [quote])

theorem Token.Spelled.of_lexeme {t : Token} {text : String} (h : text = t.lexeme)
    (ht : ∀ value, t ≠ .string value) : t.Spelled text :=
  ⟨fun _ _ => h, fun value hvalue => absurd hvalue (ht value)⟩

/-- What a string literal is read from: the quote and what follows it. If it is a string then the
last of it is the quote again, and else it is illegal. -/
theorem scanString_text (quote : Char) (taken value text : List Char) : ∃ inner,
    (scanString quote taken value text).text = taken.reverse ++ inner ∧
      ((∃ bad, (scanString quote taken value text).token = .illegal bad) ∨
        (∃ s, (scanString quote taken value text).token = .string s) ∧
          ∃ front, inner = front ++ [quote]) := by
  fun_induction scanString quote taken value text with
  | case1 taken value => exact ⟨[], (List.append_nil _).symm, .inl ⟨_, rfl⟩⟩
  | case2 taken value rest => exact ⟨[quote], List.reverse_cons, .inr ⟨⟨_, rfl⟩, [], rfl⟩⟩
  | case3 => exact ⟨['\\'], List.reverse_cons, .inl ⟨_, rfl⟩⟩
  | case4 taken value e rest d _ _ ih =>
    obtain ⟨inner, htext, hbad | ⟨hs, front, rfl⟩⟩ := ih
    · exact ⟨'\\' :: e :: inner, by simpa using htext, .inl hbad⟩
    · exact ⟨'\\' :: e :: (front ++ [quote]), by simpa using htext,
        .inr ⟨hs, '\\' :: e :: front, rfl⟩⟩
  | case5 taken value e => exact ⟨['\\', e], by simp, .inl ⟨_, rfl⟩⟩
  | case6 taken value c rest _ _ ih =>
    obtain ⟨inner, htext, hbad | ⟨hs, front, rfl⟩⟩ := ih
    · exact ⟨c :: inner, by simpa using htext, .inl hbad⟩
    · exact ⟨c :: (front ++ [quote]), by simpa using htext, .inr ⟨hs, c :: front, rfl⟩⟩

theorem spelled_scanString {quote : Char} (hquote : isQuote quote = true) (text : List Char) :
    (scanString quote [quote] [] text).token.Spelled
      (.ofList (scanString quote [quote] [] text).text) := by
  obtain ⟨inner, htext, ⟨bad, hbad⟩ | ⟨⟨s, hs⟩, front, rfl⟩⟩ :=
    scanString_text quote [quote] [] text
  · rw [hbad, htext]
    refine ⟨fun _ h => ?_, fun _ h => nomatch h⟩
    have hhead := h bad rfl quote (by simp)
    rw [hquote] at hhead
    cases hhead
  · rw [hs, htext]
    exact ⟨fun h => absurd rfl (h s), fun _ _ => ⟨quote, front, hquote, by simp⟩⟩

theorem Token.lexeme_ofWord (word : String) : (Token.ofWord word).lexeme = word := by
  rw [Token.ofWord]
  split
  next k hk =>
    have hword := List.find?_some hk
    exact eq_of_beq hword
  next => rfl

theorem Token.ofWord_ne_string (word value : String) : Token.ofWord word ≠ .string value := by
  rw [Token.ofWord]
  split
  · rintro ⟨⟩
  · rintro ⟨⟩

theorem spelled_scan (c : Char) (rest : List Char) :
    (scan c rest).token.Spelled (.ofList (scan c rest).text) := by
  rw [scan]
  dsimp only
  split
  next m _ _ => exact .of_lexeme String.ofList_toList (by rintro value ⟨⟩)
  next =>
    split
    next hc => exact spelled_scanString (isQuote_iff.2 hc) rest
    next =>
      split
      next => exact .of_lexeme rfl (by rintro value ⟨⟩)
      next =>
        split
        next => exact .of_lexeme (Token.lexeme_ofWord _).symm (Token.ofWord_ne_string _)
        next => exact .of_lexeme String.singleton_eq_ofList.symm (by rintro value ⟨⟩)

/-! ## Tiles -/

/-- Tokens tile a text from a place on: white space and tokens take turns, and white space is last.
Each token takes at least one character and is written as it may be. -/
inductive Tiled (source : String) : Nat → List (Located Token) → Prop
  | done {place : Nat} (hblank : (Span.mk place source.utf8ByteSize).Blank source) :
    Tiled source place []
  | token {place : Nat} {t : Located Token} {ts : List (Located Token)}
    (hblank : (Span.mk place t.span.start).Blank source) (hne : t.value ≠ .eof)
    (hfits : t.span.Fits source) (hlt : t.span.start < t.span.stop)
    (hspelled : t.value.Spelled (t.span.textIn source)) (hrest : Tiled source t.span.stop ts) :
    Tiled source place (t :: ts)

theorem blank_ofText {source : String} {before blanks behind : List Char}
    (h : source.toList = before ++ blanks ++ behind) (hblanks : blanks.all isBlank = true) :
    (Span.ofText (byteLength before) blanks).Blank source where
  fits := Span.fits_ofText h
  all_blank := by rwa [Span.textIn_ofText h, String.toList_ofList]

/-- White space, then a token, then the rest. -/
theorem eq_blanks_append_scan {text rest : List Char} {c : Char}
    (h : text.dropWhile isBlank = c :: rest) :
    text = text.takeWhile isBlank ++ ((scan c rest).text ++ (scan c rest).rest) := by
  rw [scan_text_append_rest, ← h, List.takeWhile_append_dropWhile]

theorem isBlank_eq_false_of_dropWhile {text rest : List Char} {c : Char}
    (h : text.dropWhile isBlank = c :: rest) : isBlank c = false := by
  have hhead := List.head?_dropWhile_not isBlank text
  simpa [h] using hhead

theorem tiled_tokensFrom {source : String} (place : Nat) (text : List Char) :
    ∀ before, source.toList = before ++ text → place = byteLength before →
      Tiled source place (tokensFrom place text) := by
  fun_induction tokensFrom place text with
  | case1 place text hblank =>
    rintro before h rfl
    have hstop : byteLength before + byteLength text = source.utf8ByteSize := by
      rw [← byteLength_toList, h, byteLength_append]
    have hall : text.all isBlank = true := by
      rw [← List.takeWhile_append_dropWhile (p := isBlank) (l := text), hblank, List.append_nil]
      exact List.all_takeWhile
    exact .done (hstop ▸ blank_ofText (h.trans (List.append_nil _).symm) hall)
  | case2 place text c rest htext start piece span ih =>
    rintro before h rfl
    have hcut : text = text.takeWhile isBlank ++ (piece.text ++ piece.rest) :=
      eq_blanks_append_scan htext
    have hbefore : start = byteLength (before ++ text.takeWhile isBlank) :=
      (byteLength_append ..).symm
    have hsource : source.toList =
        before ++ text.takeWhile isBlank ++ piece.text ++ piece.rest := by
      rw [h, List.append_assoc, List.append_assoc, ← hcut]
    have hspan : span = Span.ofText (byteLength (before ++ text.takeWhile isBlank)) piece.text := by
      rw [← hbefore]
    refine .token ?_ (scan_lexed c rest).ne_eof ?_ ?_ ?_ (ih _ hsource ?_)
    · exact blank_ofText (by rw [h, List.append_assoc, List.takeWhile_append_dropWhile])
        List.all_takeWhile
    · rw [hspan]
      exact Span.fits_ofText hsource
    · exact Nat.lt_add_of_pos_right (byteLength_pos (scan_text_ne_nil c rest))
    · rw [hspan, Span.textIn_ofText hsource]
      exact spelled_scan c rest
    · rw [hspan, byteLength_append _ piece.text]
      rfl

namespace Tiled

variable {source : String} {place : Nat} {ts : List (Located Token)}

theorem le_start (h : Tiled source place ts) : ∀ t ∈ ts, place ≤ t.span.start := by
  induction h with
  | done => exact fun t ht => absurd ht List.not_mem_nil
  | token hblank _ _ hlt _ _ ih =>
    have hstart := hblank.fits.start_le_stop
    exact List.forall_mem_cons.2 ⟨hstart, fun u hu =>
      Nat.le_trans hstart (Nat.le_trans (Nat.le_of_lt hlt) (ih u hu))⟩

theorem start_lt_stop (h : Tiled source place ts) : ∀ t ∈ ts, t.span.start < t.span.stop := by
  induction h with
  | done => exact fun t ht => absurd ht List.not_mem_nil
  | token _ _ _ hlt _ _ ih => exact List.forall_mem_cons.2 ⟨hlt, ih⟩

theorem stop_le (h : Tiled source place ts) :
    ∀ t ∈ ts, t.span.stop ≤ source.utf8ByteSize := by
  induction h with
  | done => exact fun t ht => absurd ht List.not_mem_nil
  | token _ _ hfits _ _ _ ih => exact List.forall_mem_cons.2 ⟨hfits.stop.le_rawEndPos, ih⟩

theorem pairwise (h : Tiled source place ts) :
    ts.Pairwise fun t u => t.span.stop ≤ u.span.start := by
  induction h with
  | done => exact .nil
  | token _ _ _ _ _ hrest ih => exact .cons hrest.le_start ih

end Tiled

/-! ## Reading -/

namespace Stream

def after (s : Stream) : Nat → Cursor
  | 0 => ⟨s.eof, s.tokens, []⟩
  | n + 1 => (s.after n).advance s.eof

theorem after_rest (s : Stream) (n : Nat) : (s.after n).rest = s.tokens.drop n := by
  induction n with
  | zero => rfl
  | succ n ih => rw [after, Cursor.advance_rest, ih, List.tail_drop]

theorem read_after (s : Stream) (n : Nat) : Parse.read s.eof (s.after n) =
    some (.ok (s.tokens.getD n s.eof), s.after (n + 1)) := by
  have hnext : (s.after n).next s.eof = s.tokens.getD n s.eof := by
    rw [Cursor.next, after_rest, List.headD_eq_head?_getD, List.head?_drop,
      List.getD_eq_getElem?_getD]
  rw [← hnext]
  rfl

end Stream

/-- Token by token a text is read up to its end, which then is read again and again. The tokens tile
the text. -/
theorem token_spans_tile (source : String) :
    (∀ n, Parse.read (Stream.ofText source).eof ((Stream.ofText source).after n) =
      some (.ok ((Stream.ofText source).tokens.getD n
          ⟨.eof, ⟨source.utf8ByteSize, source.utf8ByteSize⟩⟩),
        (Stream.ofText source).after (n + 1))) ∧
    Tiled source 0 (Stream.ofText source).tokens ∧
    (Stream.ofText source).tokens.Pairwise fun t u => t.span.stop ≤ u.span.start := by
  have htiled : Tiled source 0 (Stream.ofText source).tokens :=
    tiled_tokensFrom 0 source.toList [] rfl rfl
  have heof : (Stream.ofText source).eof =
      ⟨.eof, ⟨source.utf8ByteSize, source.utf8ByteSize⟩⟩ := by
    simp only [Stream.eof, Stream.ofText, Span.point, byteLength_toList]
  refine ⟨fun n => ?_, htiled, htiled.pairwise⟩
  rw [Stream.read_after, heof]

end Scriptlet
