import Scriptlet.Proofs.Completeness
import Scriptlet.Proofs.Lexemes

/-!
# The language that is accepted

A text is read without errors exactly if its tokens are a sentence of the grammar, and the program
is then the tree of that sentence. As reading has one result, no text is a sentence in two ways.
-/

namespace Scriptlet

open Grammar

namespace Stream

def values (s : Stream) : List Token :=
  s.tokens.map (·.value)

variable {s : Stream} {p : Program}

/-- A stream that is read without errors is a sentence. The end is not among its tokens, so it is
met behind the last of them only. -/
theorem statements_of_parse (h : ∀ t ∈ s.tokens, t.value ≠ .eof) (hp : s.parse = ⟨p, []⟩) :
    Statements s.values p := by
  have hstop : s.eof.value = .eof := rfl
  obtain ⟨p', c, hparse, ⟨hderives, hend⟩, hlater⟩ := s.parse_spec (Parse.wp_mono
    (Parse.wp_and (Parse.reads_statements hstop false s.fuel ⟨s.eof, s.tokens, []⟩)
      (Parse.wp_statements_later hstop false s.fuel ⟨s.eof, s.tokens, []⟩))
    (fun _ _ => id) fun _ _ _ => trivial)
  obtain ⟨rfl, herrors⟩ : p = p' ∧ c.errors = [] := by simpa [hp] using hparse
  obtain ⟨ts, hts, hsentence⟩ := hderives herrors
  cases hr : c.rest with
  | nil =>
    have hvalues : s.values = ts := by simpa [values, Cursor.values, hr] using hts
    exact hvalues ▸ hsentence
  | cons t rest =>
    rw [Cursor.next_of_cons hr] at hend
    have ht : t ∈ s.tokens := hlater.rest.subset (by simp [hr])
    unfold Token.endsBlock at hend
    split at hend
    next heof => exact absurd heof (h t ht)
    next => cases hend
    next => cases hend

/-- A stream that is a sentence is read without errors, as the tree of the sentence. -/
theorem parse_of_statements (hp : Statements s.values p) : s.parse = ⟨p, []⟩ := by
  have hvalues : (⟨s.eof, s.tokens, []⟩ : Cursor).values = s.values ++ [] := by
    simp [values, Cursor.values]
  obtain ⟨p', c, hparse, hp', hr⟩ := s.parse_spec (Parse.wp_mono
    ((Parse.proceeds_statements rfl false rfl hp s.fuel ⟨s.eof, s.tokens, []⟩ hvalues).accepts rfl
      rfl)
    (fun _ _ => id) fun _ _ => False.elim)
  rw [hparse, hp', hr.errors]
  rfl

end Stream

theorem parse_of_lexemes {source : String} {p : Program}
    (h : Statements (lexemes source.toList) p) : parse source = ⟨p, []⟩ :=
  Stream.parse_of_statements (s := Stream.ofText source) h

theorem statements_of_parse {source : String} {p : Program} (h : parse source = ⟨p, []⟩) :
    Statements (lexemes source.toList) p :=
  Stream.statements_of_parse (s := Stream.ofText source)
    (fun t ht => (tokensFrom_lexed 0 source.toList t ht).ne_eof) h

/-- No error is reported exactly for the sentences of the grammar, and each is read as its tree. -/
theorem parse_accepts_sentences (source : String) :
    ((parse source).errors = [] ↔ ∃ p, Statements (lexemes source.toList) p) ∧
      ∀ p, Statements (lexemes source.toList) p → parse source = ⟨p, []⟩ := by
  refine ⟨⟨fun h => ?_, fun ⟨p, hp⟩ => ?_⟩, fun p => parse_of_lexemes⟩
  · exact ⟨_, statements_of_parse (congrArg (Parsed.mk _) h)⟩
  · rw [parse_of_lexemes hp]

end Scriptlet
