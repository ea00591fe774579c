import Scriptlet.Proofs.Joining

/-!
# White space between tokens

A text may be written once more with other white space: its tokens in their order, each of the same
characters, with some white space between any two of them. The tokens of the new text are the old
ones at other places, and the parser knows nothing but tokens, so it reads the same program and
reports the same errors at those places. Only a string without its end must stay the last of its
text, because all that is put behind it becomes part of it.
-/

namespace Scriptlet

open Text

/-! ## One token by itself -/

/-- What was taken of a string literal is all that matters to it. -/
theorem scanString_self (quote : Char) (taken value text : List Char) : ∃ inner,
    (scanString quote taken value text).text = taken.reverse ++ inner ∧
      scanString quote taken value inner =
        { scanString quote taken value text with rest := [] } := by
  fun_induction scanString quote taken value text with
  | case1 taken value => exact ⟨[], (List.append_nil _).symm, by rw [scanString]⟩
  | case2 taken value rest => exact ⟨[quote], List.reverse_cons, by simp [scanString]⟩
  | case3 taken value hne => exact ⟨['\\'], List.reverse_cons, by simp [scanString, hne]⟩
  | case4 taken value e rest d hd hne ih =>
    obtain ⟨inner, htext, hself⟩ := ih
    refine ⟨'\\' :: e :: inner, by simpa using htext, ?_⟩
    rw [scanString.eq_def]
    simpa [hd, hne] using hself
  | case5 taken value e rest hbad hne => exact ⟨['\\', e], by simp, by simp [scanString, hbad, hne]⟩
  | case6 taken value c rest hne hescape ih =>
    obtain ⟨inner, htext, hself⟩ := ih
    refine ⟨c :: inner, by simpa using htext, ?_⟩
    rw [scanString.eq_def]
    simpa [hne, hescape] using hself

theorem Mark.read?_self {c : Char} {rest rest' : List Char} {m : Mark}
    (h : Mark.read? c rest = some (m, rest')) :
    ∃ cs, m.text.toList = c :: cs ∧ Mark.read? c cs = some (m, []) := by
  unfold Mark.read? at h
  split at h <;> cases h <;> exact ⟨_, rfl, rfl⟩

theorem Mark.read?_nil_of_none {c : Char} {rest : List Char} (h : Mark.read? c rest = none) :
    Mark.read? c [] = none := by
  unfold Mark.read? at h ⊢
  split <;> first | rfl | (split at h <;> simp_all)

theorem takeWhile_takeWhile_self (p : Char → Bool) (cs : List Char) :
    (cs.takeWhile p).takeWhile p = cs.takeWhile p ∧ (cs.takeWhile p).dropWhile p = [] := by
  have h := @takeWhile_append_apart p (cs.takeWhile p) [] List.all_takeWhile (by simp)
  rwa [List.append_nil] at h

/-- What was taken of a text for its first token is cut into that token again. -/
theorem scan_self (c : Char) (rest : List Char) : ∃ cs,
    (scan c rest).text = c :: cs ∧ scan c cs = { scan c rest with rest := [] } := by
  unfold scan
  cases hread : Mark.read? c rest with
  | some read =>
    obtain ⟨cs, htext, hself⟩ := Mark.read?_self hread
    refine ⟨cs, htext, ?_⟩
    rw [hself]
  | none =>
    dsimp only
    split
    next hquote =>
      obtain ⟨inner, htext, hself⟩ := scanString_self c [c] [] rest
      have hmark : Mark.read? c inner = none := by rcases hquote with rfl | rfl <;> rfl
      exact ⟨inner, htext, by rw [hmark]; exact hself⟩
    next hquote =>
      split
      next hdigit =>
        obtain ⟨htake, hdrop⟩ := takeWhile_takeWhile_self Char.isDigit rest
        refine ⟨_, rfl, ?_⟩
        rw [read?_eq_none _ (isNameChar_of_isDigit hdigit)]
        simp only [htake, hdrop]
      next hdigit =>
        split
        next hname =>
          obtain ⟨htake, hdrop⟩ := takeWhile_takeWhile_self isNameChar rest
          refine ⟨_, rfl, ?_⟩
          rw [read?_eq_none _ (isNameChar_of_isNameStart hname)]
          simp only [htake, hdrop]
        next hname =>
          refine ⟨[], rfl, ?_⟩
          rw [Mark.read?_nil_of_none hread]

/-- A token is read from its own characters, whatever white space follows them. -/
theorem scan_again {c : Char} {rest more : List Char} (hmore : Apart more)
    (hopen : (scan c rest).token.isUnclosed = true → more = []) : ∃ cs,
    (scan c rest).text = c :: cs ∧ scan c (cs ++ more) = { scan c rest with rest := more } := by
  obtain ⟨cs, htext, hself⟩ := scan_self c rest
  refine ⟨cs, htext, ?_⟩
  by_cases h : (scan c rest).token.isUnclosed = true
  · rw [hopen h, List.append_nil, hself]
  · have hcs : (scan c cs).token.isUnclosed = false := by
      rw [hself]
      exact Bool.eq_false_iff.2 h
    rw [scan_append hcs hmore, hself]
    rfl

/-! ## A string without its end -/

theorem scanString_rest_of_unclosed {quote : Char} {taken value text : List Char}
    (h : (scanString quote taken value text).token.isUnclosed = true) :
    (scanString quote taken value text).rest = [] := by
  fun_induction scanString quote taken value text with
  | case1 => rfl
  | case2 => cases h
  | case3 => rfl
  | case4 taken value e rest d _ _ ih => exact ih h
  | case5 =>
    rw [Token.isUnclosed, String.toList_ofList] at h
    cases h
  | case6 taken value c rest _ _ ih => exact ih h

theorem Token.isUnclosed_ofWord (word : String) : (Token.ofWord word).isUnclosed = false := by
  rw [Token.ofWord]
  split <;> rfl

/-- Nothing follows a string without its end. -/
theorem scan_rest_of_unclosed {c : Char} {rest : List Char}
    (h : (scan c rest).token.isUnclosed = true) : (scan c rest).rest = [] := by
  unfold scan at h ⊢
  dsimp only at h ⊢
  split at h
  next => cases h
  next =>
    split at h
    next hquote =>
      rw [if_pos hquote]
      exact scanString_rest_of_unclosed h
    next hquote =>
      split at h
      next => cases h
      next =>
        split at h
        next => simp [Token.isUnclosed_ofWord] at h
        next =>
          have hc : isQuote c = true := by simpa [Token.isUnclosed] using h
          exact absurd (isQuote_iff.1 hc) hquote

/-! ## All tokens -/

/-- A text is made of the slices of some tokens, with white space behind each of them. What is
behind the last one may be empty, and has to be if that is a string without its end. -/
inductive Laid (source : String) : List (Located Token) → List Char → Prop
  | nil : Laid source [] []
  | cons {t : Located Token} {ts : List (Located Token)} {gap text : List Char}
    (hblank : gap.all isBlank = true) (hapart : ts ≠ [] → gap ≠ [])
    (hopen : ts = [] → t.value.isUnclosed = true → gap = []) (hrest : Laid source ts text) :
    Laid source (t :: ts) ((t.span.textIn source).toList ++ (gap ++ text))

theorem apart_of_blank {gap : List Char} (more : List Char) (h : gap.all isBlank = true)
    (hmore : gap = [] → more = []) : Apart (gap ++ more) := by
  cases gap with
  | nil => rw [hmore rfl]; exact apart_nil
  | cons c gap =>
    have hc : isBlank c = true := (List.all_eq_true.1 h) c (by simp)
    refine apart_cons _ ⟨?_, ?_⟩
    · cases hname : isNameChar c with
      | false => rfl
      | true => exact absurd (isBlank_eq_false hname) (by simp [hc])
    · rintro rfl
      exact absurd hc (by decide)

theorem lexemes_blanks_append {blanks : List Char} (more : List Char)
    (h : blanks.all isBlank = true) : lexemes (blanks ++ more) = lexemes more := by
  rw [lexemes, tokensFrom_blanks_append 0 more (List.all_eq_true.1 h), values_tokensFrom]

theorem lexemes_of_laid {source : String} (place : Nat) (text : List Char) :
    ∀ before, source.toList = before ++ text → place = byteLength before →
      ∀ other, Laid source (tokensFrom place text) other →
        lexemes other = (tokensFrom place text).map (·.value) := by
  fun_induction tokensFrom place text with
  | case1 =>
    intro before _ _ other h
    cases h
    simp
  | case2 place text c rest htext start piece span ih =>
    rintro before h rfl other hother
    have hsource : source.toList =
        before ++ text.takeWhile isBlank ++ piece.text ++ piece.rest := by
      rw [h, List.append_assoc, List.append_assoc, ← eq_blanks_append_scan htext]
    have hslice : span.textIn source = .ofList piece.text := by
      rw [← Span.textIn_ofText hsource, byteLength_append]
    have hc : isBlank c = false := isBlank_eq_false_of_dropWhile htext
    cases hother with
    | @cons _ _ gap other hblank hapart hopen hrest =>
      have hnil (hts : tokensFrom span.stop piece.rest = []) : other = [] := by
        rw [hts] at hrest
        cases hrest
        rfl
      have hmore : Apart (gap ++ other) := apart_of_blank other hblank fun hgap =>
        hnil (by_contra fun hts => hapart hts hgap)
      have hend (hu : piece.token.isUnclosed = true) : gap ++ other = [] := by
        have hts : tokensFrom span.stop piece.rest = [] := by
          rw [scan_rest_of_unclosed hu]
          simp [tokensFrom]
        rw [hopen hts hu, hnil hts, List.append_nil]
      obtain ⟨cs, htoken, hagain⟩ := scan_again hmore hend
      have hstop : span.stop = byteLength (before ++ text.takeWhile isBlank ++ piece.text) := by
        simp only [span, start, Span.ofText, byteLength_append]
      calc lexemes ((span.textIn source).toList ++ (gap ++ other))
        _ = lexemes (c :: (cs ++ (gap ++ other))) := by
          rw [hslice, String.toList_ofList, htoken, List.cons_append]
        _ = piece.token :: lexemes (gap ++ other) := by
          rw [lexemes_of_not_blank _ hc, hagain]
        _ = piece.token :: (tokensFrom span.stop piece.rest).map (·.value) := by
          rw [lexemes_blanks_append other hblank, ih _ hsource hstop other hrest]

/-! ## The same tokens at other places -/

/-- Two rows of the same things differ in nothing but their spans, so a change of spans takes one
to the other. -/
theorem exists_move {α : Type} {xs ys : List (Located α)}
    (hvalues : ys.map (·.value) = xs.map (·.value)) (hspans : (xs.map (·.span)).Nodup) :
    ∃ f, ys = xs.map (Located.move f) := by
  induction xs generalizing ys with
  | nil => exact ⟨id, List.map_eq_nil_iff.1 hvalues⟩
  | cons x xs ih =>
    obtain ⟨y, ys, rfl, hy, hys⟩ := List.map_eq_cons_iff.1 hvalues
    rw [List.map_cons, List.nodup_cons] at hspans
    obtain ⟨f, rfl⟩ := ih hys hspans.2
    refine ⟨Function.update f x.span y.span, ?_⟩
    rw [List.map_cons, List.cons.injEq]
    constructor
    · rw [Located.move, Function.update_self]
      exact congrArg (Located.mk · y.span) hy
    · refine List.map_congr_left fun u hu => ?_
      have hne : u.span ≠ x.span := fun h => hspans.1 (h ▸ List.mem_map_of_mem hu)
      rw [Located.move, Located.move, Function.update_of_ne hne]

namespace Stream

/-- No two tokens of a text have the same span, the end included. -/
theorem nodup_spans (source : String) :
    (((ofText source).tokens ++ [(ofText source).eof]).map (·.span)).Nodup := by
  have htiled : Tiled source 0 (ofText source).tokens :=
    tiled_tokensFrom 0 source.toList [] rfl rfl
  have hlt := htiled.start_lt_stop
  rw [List.map_append, List.nodup_append]
  refine ⟨?_, by simp, ?_⟩
  · rw [List.Nodup, List.pairwise_map]
    refine htiled.pairwise.imp_of_mem fun {t u} ht hu htu heq => ?_
    have hstart := congrArg Span.start heq
    have ht := hlt t ht
    omega
  · rintro span hspan eof heof rfl
    obtain ⟨t, ht, rfl⟩ := List.mem_map.1 hspan
    have hpoint : t.span = Span.point (ofText source).stop := by simpa [eof] using heof
    have ht := hlt t ht
    rw [hpoint] at ht
    exact Nat.lt_irrefl _ ht

/-- The parser reads the same from the same tokens at other places. -/
theorem parse_of_moved {s s' : Stream} {f : Span → Span}
    (htokens : s'.tokens = s.tokens.map (Located.move f)) (heof : s'.eof = s.eof.move f) :
    s'.parse = ⟨s.parse.program, s.parse.errors.map (ParseError.move f)⟩ := by
  have hread := s.accepts_moved f s'.eof s'.fuel
  rw [← heof, ← htokens] at hread
  obtain ⟨p, c, hparse, hp, herrors⟩ := s'.parse_spec
    (Parse.wp_mono hread (fun _ _ => id) fun _ _ => False.elim)
  rw [hparse, hp, herrors]

end Stream

/-- However the tokens of a text are laid out, they are the same tokens at other places, and the
same program is read from them with the same errors at those places. -/
theorem layout_immaterial {source : String} {lead text : List Char}
    (hlead : lead.all isBlank = true) (htext : Laid source (Stream.ofText source).tokens text) :
    let other := String.ofList (lead ++ text)
    ∃ f : Span → Span,
      (Stream.ofText other).tokens = (Stream.ofText source).tokens.map (Located.move f) ∧
      (Stream.ofText other).eof = (Stream.ofText source).eof.move f ∧
      parse other =
        ⟨(parse source).program, (parse source).errors.map (ParseError.move f)⟩ := by
  intro other
  have hvalues : (Stream.ofText other).tokens.map (·.value) =
      (Stream.ofText source).tokens.map (·.value) := by
    have hother : other.toList = lead ++ text := String.toList_ofList
    change lexemes other.toList = _
    rw [hother, lexemes_blanks_append text hlead]
    exact lexemes_of_laid 0 source.toList [] rfl rfl text htext
  have hall : ((Stream.ofText other).tokens ++ [(Stream.ofText other).eof]).map (·.value) =
      ((Stream.ofText source).tokens ++ [(Stream.ofText source).eof]).map (·.value) := by
    rw [List.map_append, List.map_append, hvalues]
    rfl
  obtain ⟨f, hmoved⟩ := exists_move hall (Stream.nodup_spans source)
  rw [List.map_append] at hmoved
  obtain ⟨htokens, heof⟩ := List.append_inj' hmoved rfl
  have heof : (Stream.ofText other).eof = (Stream.ofText source).eof.move f :=
    (List.cons.inj heof).1
  exact ⟨f, htokens, heof, Stream.parse_of_moved htokens heof⟩

/-- A string with a bad escape, and behind it one without its end. -/
theorem layout_immaterial_of_open_string :
    let source := "a!=\"b\\q'c"
    let lead := ['\n']
    let text := "a != \"b\\q\t'c".toList
    let other := String.ofList (lead ++ text)
    lead.all isBlank = true ∧ Laid source (Stream.ofText source).tokens text ∧
    ∃ f : Span → Span,
      (Stream.ofText other).tokens = (Stream.ofText source).tokens.map (Located.move f) ∧
      (Stream.ofText other).eof = (Stream.ofText source).eof.move f ∧
      parse other =
        ⟨(parse source).program, (parse source).errors.map (ParseError.move f)⟩ := by
  intro source lead text other
  have hlead : lead.all isBlank = true := by decide
  let a : Located Token := ⟨.identifier "a", ⟨0, 1⟩⟩
  let mark : Located Token := ⟨.mark .bangEqual, ⟨1, 3⟩⟩
  let escape : Located Token := ⟨.illegal "\\q", ⟨3, 7⟩⟩
  let unclosed : Located Token := ⟨.illegal "'c", ⟨7, 9⟩⟩
  have htokens : (Stream.ofText source).tokens = [a, mark, escape, unclosed] := by decide +kernel
  have hlaid : Laid source [a, mark, escape, unclosed] _ :=
    @Laid.cons _ a _ [' '] _ rfl (by decide) (by decide)
      (@Laid.cons _ mark _ [' '] _ rfl (by decide) (by decide)
        (@Laid.cons _ escape _ ['\t'] _ rfl (by decide) (by decide)
          (@Laid.cons _ unclosed _ [] _ rfl (by decide) (by decide) .nil)))
  have htext : Laid source (Stream.ofText source).tokens text := by
    rw [htokens]
    convert hlaid
    decide +kernel
  exact ⟨hlead, htext, layout_immaterial hlead htext⟩

end Scriptlet
