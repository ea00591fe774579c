import Scriptlet.Proofs.Adjacency

/-!
# Quoted text is read as it was

A text in double quotes, escaped, is one token that stands for the text, whatever follows it and
whatever stands before it, as long as no string is open there. A quote or a backslash of the text
itself never ends the token early or keeps it open, and the text breaks no line.
-/

namespace Scriptlet

open Text

def unseen : List Char :=
  ['\n', '\r', '\t', '\x00']

/-- An unseen character is escaped, and no escape is made of one. -/
theorem not_unseen_of_mem_escapeChar {c d : Char} (h : d ∈ escapeChar c) : d ∉ unseen := by
  have escaped : unseen.all (fun c => (escapeLetter? c).isSome) = true := by decide
  have foreign : unseen.all (fun letter => (unescape? letter).isNone) = true := by decide
  rw [List.all_eq_true] at escaped foreign
  cases hc : escapeLetter? c with
  | none =>
    obtain rfl : d = c := by simpa [escapeChar, hc] using h
    intro hd
    have hsome := escaped d hd
    rw [hc] at hsome
    cases hsome
  | some letter =>
    have hd : d = '\\' ∨ d = letter := by simpa [escapeChar, hc] using h
    rcases hd with rfl | rfl
    · decide
    · intro hd
      have hnone := foreign d hd
      rw [unescape?_of_escapeLetter? hc] at hnone
      cases hnone

theorem not_unseen_of_mem_escape {text : List Char} {c : Char} (h : c ∈ escape text) :
    c ∉ unseen := by
  obtain ⟨d, -, hc⟩ := List.mem_flatMap.1 h
  exact not_unseen_of_mem_escapeChar hc

theorem toList_quoted (value : String) :
    (quoted value).toList = '"' :: (escape value.toList ++ ['"']) := by
  simp [quoted]

/-- The first token of a text that starts with a quoted one. -/
theorem scan_quoted (value : String) (rest : List Char) :
    scan '"' (escape value.toList ++ '"' :: rest) =
      ⟨.string value, (quoted value).toList, rest⟩ := by
  obtain ⟨htoken, hrest⟩ := scanString_escape ['"'] [] value.toList rest
  have hall := scanString_text_append_rest '"' ['"'] [] (escape value.toList ++ '"' :: rest)
  have hscan : scan '"' (escape value.toList ++ '"' :: rest) =
      scanString '"' ['"'] [] (escape value.toList ++ '"' :: rest) := by
    simp [scan, Mark.read?]
  rw [hscan]
  generalize scanString '"' ['"'] [] (escape value.toList ++ '"' :: rest) = piece at *
  obtain ⟨token, text, rest'⟩ := piece
  simp only [List.reverse_nil, List.nil_append, String.ofList_toList] at htoken hrest
  subst htoken hrest
  have htext : text ++ rest' = (quoted value).toList ++ rest' := by
    rw [toList_quoted]
    simpa using hall
  rw [List.append_cancel_right htext]

/-- The tokens of a text that starts with a quoted one. -/
theorem tokensFrom_quoted (value : String) (place : Nat) (rest : List Char) :
    tokensFrom place ((quoted value).toList ++ rest) =
      ⟨.string value, .ofText place (quoted value).toList⟩ ::
        tokensFrom (place + byteLength (quoted value).toList) rest := by
  have hcons : (quoted value).toList ++ rest = '"' :: (escape value.toList ++ '"' :: rest) := by
    simp [toList_quoted]
  rw [hcons, tokensFrom_of_not_blank place _ (by decide), scan_quoted, Span.ofText]

/-- Behind other text the token is the same, further on. -/
theorem tokensFrom_append_quoted {before : List Char} {place : Nat}
    (h : ∀ t ∈ tokensFrom place before, t.value.isUnclosed = false) (value : String)
    (rest : List Char) :
    tokensFrom place (before ++ ((quoted value).toList ++ rest)) =
      tokensFrom place before ++
        ⟨.string value, .ofText (place + byteLength before) (quoted value).toList⟩ ::
          tokensFrom (place + byteLength before + byteLength (quoted value).toList) rest := by
  have hapart : Apart ((quoted value).toList ++ rest) := by
    rw [toList_quoted]
    exact apart_cons _ (by decide)
  rw [tokensFrom_append h hapart, tokensFrom_quoted]

/-- Reading undoes the escapes of a quoted text. -/
theorem reading_undoes_quoting (value : String) (place : Nat) (rest : List Char) :
    let text := '"' :: (escape value.toList ++ ['"'])
    text = (quoted value).toList ∧
    scan '"' (escape value.toList ++ '"' :: rest) = ⟨.string value, text, rest⟩ ∧
    tokensFrom place (text ++ rest) =
      ⟨.string value, ⟨place, place + byteLength text⟩⟩ ::
        tokensFrom (place + byteLength text) rest ∧
    (∀ before, (∀ t ∈ tokensFrom 0 before, t.value.isUnclosed = false) →
      let start := byteLength before
      tokensFrom 0 (before ++ (text ++ rest)) =
        tokensFrom 0 before ++ ⟨.string value, ⟨start, start + byteLength text⟩⟩ ::
          tokensFrom (start + byteLength text) rest) ∧
    ∀ c ∈ escape value.toList, c ∉ unseen := by
  intro text
  have htext : text = (quoted value).toList := (toList_quoted value).symm
  refine ⟨htext, ?_, ?_, fun before hbefore => ?_, fun c => not_unseen_of_mem_escape⟩
  · rw [htext, scan_quoted]
  · rw [htext, tokensFrom_quoted]
    rfl
  · rw [htext, tokensFrom_append_quoted hbefore, Nat.zero_add]
    rfl

/-- A value that ends in a backslash and a quote, right behind a name and in front of another quoted
text. -/
theorem reading_undoes_quoting_within :
    let value := "a\n\\\""
    let before := ['x']
    (∀ t ∈ tokensFrom 0 before, t.value.isUnclosed = false) ∧
      quoted value = "\"a\\n\\\\\\\"\"" ∧
      tokensFrom 0 (before ++ ('"' :: (escape value.toList ++ ['"']) ++ (quoted "b").toList)) =
        [⟨.identifier "x", ⟨0, 1⟩⟩, ⟨.string value, ⟨1, 10⟩⟩, ⟨.string "b", ⟨10, 13⟩⟩] := by
  intro value before
  have hbefore : ∀ t ∈ tokensFrom 0 before, t.value.isUnclosed = false := by decide +kernel
  refine ⟨hbefore, by decide +kernel, ?_⟩
  have hread := (reading_undoes_quoting value 0 (quoted "b").toList).2.2.2.1 before hbefore
  have hlength : byteLength ('"' :: (escape value.toList ++ ['"'])) = 9 := by decide +kernel
  rw [hread, hlength]
  decide +kernel

end Scriptlet
