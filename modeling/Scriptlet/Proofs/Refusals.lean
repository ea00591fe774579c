import Scriptlet.Proofs.Accord
import Scriptlet.Proofs.Nesting
import Scriptlet.Proofs.Substitution

/-!
# What a sink refuses

A sink may refuse what a program prints. The program cannot tell: printing is nil whether the text
was taken or not, and all that is left of a refusal is a fault, which no program sees. So programs
run alike whatever becomes of their output. And a sink that gives up at some point has taken the
beginning of what the program prints to one that takes everything.

Only a list that contains itself is different. Printing it does not end, unless something that is
printed before is refused. Where no list does, `print` may as well be one that never looks out for
such lists (`Builtin.printUnguarded`), and that one ends for every sink.
-/

namespace Scriptlet

/-- The result of an operation, with nil in place of a fault about output. -/
def hushed : Except Fault Value → Except Fault Value
  | .error (.output _) => .ok .nil
  | r => r

namespace Sink

def Unfailing (sink : Sink) : Prop :=
  ∀ history piece, sink history piece = none

def ShutBehind (sink : Sink) (history : List Write) : Prop :=
  ∀ later piece, ∃ reason, sink (later ++ history) piece = some reason

def FailsForGood (sink : Sink) : Prop :=
  ∀ history piece reason, sink history piece = some reason →
    sink.ShutBehind (⟨piece, some reason⟩ :: history)

end Sink

/-! ## Writing -/

namespace Console

variable {sink sink' : Sink} {whole part : Console}

theorem text_cons (w : Write) (history : List Write) :
    text ⟨w :: history⟩ = text ⟨history⟩ ++ if w.refusal.isNone then w.text else "" := by
  rw [text, text, taken, taken, List.reverse_cons, List.filterMap_append, String.join_append]
  cases h : w.refusal <;> simp [h]

/-- What sinks have taken of the same writes: one of them all, and the other one all as well, or the
beginning, and then it takes nothing more. -/
def Trails (sink' : Sink) (whole part : Console) : Prop :=
  whole = part ∨ sink'.ShutBehind part.history ∧ ∃ rest, whole.text = part.text ++ rest

theorem Trails.text_eq (h : Trails sink' whole part) : ∃ rest, whole.text = part.text ++ rest := by
  rcases h with rfl | ⟨-, h⟩
  · exact ⟨"", String.append_empty.symm⟩
  · exact h

theorem text_writeAll (hsink : sink.Unfailing) (pieces : List String) (console : Console) :
    (console.writeAll sink pieces).1 = none ∧
      (console.writeAll sink pieces).2.text = console.text ++ String.join pieces := by
  induction pieces generalizing console with
  | nil => exact ⟨rfl, String.append_empty.symm⟩
  | cons piece pieces ih =>
    rw [String.join_cons]
    by_cases hpiece : piece = ""
    · simp only [writeAll, write, if_pos hpiece]
      rw [hpiece, String.empty_append]
      exact ih console
    · simp only [writeAll, write, if_neg hpiece, hsink console.history piece]
      obtain ⟨hnone, htext⟩ := ih ⟨⟨piece, none⟩ :: console.history⟩
      refine ⟨hnone, ?_⟩
      rw [htext, text_cons]
      exact String.append_assoc ..

theorem Trails.writeAll (hsink : sink.Unfailing) (hsink' : sink'.FailsForGood)
    (h : Trails sink' whole part) (pieces : List String) :
    Trails sink' (whole.writeAll sink pieces).2 (part.writeAll sink' pieces).2 := by
  induction pieces generalizing whole part with
  | nil => exact h
  | cons piece pieces ih =>
    by_cases hpiece : piece = ""
    · simpa only [Console.writeAll, write, if_pos hpiece] using ih h
    simp only [Console.writeAll, write, if_neg hpiece, hsink whole.history piece]
    cases hrefusal : sink' part.history piece with
    | none =>
      rcases h with rfl | ⟨hshut, -⟩
      · exact ih (.inl rfl)
      · obtain ⟨reason, hreason⟩ := hshut [] piece
        cases hrefusal.symm.trans hreason
    | some reason =>
      -- the one goes on with the pieces behind this one, the other has stopped
      obtain ⟨before, hbefore⟩ := h.text_eq
      have hafter := (text_writeAll hsink pieces ⟨⟨piece, none⟩ :: whole.history⟩).2
      refine .inr ⟨hsink' _ _ _ hrefusal, before ++ piece ++ String.join pieces, ?_⟩
      rw [hafter, text_cons, text_cons]
      simp [hbefore, String.append_assoc]

end Console

/-- What has a text is printed with its text, each value on a line of its own. -/
theorem Builtin.print_action {sink : Sink} (hsink : sink.Unfailing) {args : List Value}
    {store : Store} (h : ∀ v ∈ args, v.isFinite store.lists = true) :
    ∃ console, Builtin.print.action sink args store =
        some (.ok .nil, ⟨store.scopes, store.lists, console⟩) ∧
      console.text =
        store.console.text ++ String.join (args.map fun v => v.display store.lists ++ "\n") := by
  obtain ⟨hnone, htext⟩ := Console.text_writeAll hsink (linePieces store.lists args) store.console
  rw [join_linePieces] at htext
  refine ⟨_, ?_, htext⟩
  simp only [Builtin.print, Builtin.onLists, Builtin.printLines_eq_writeAll h, Option.map_some]
  rw [show store.console.writeAll sink _ = (none, _) from Prod.ext hnone rfl]

namespace Sink

end Sink

/-! ## Built-in functions -/

/-- What two sinks made of the same run leaves the same, and what they have taken. -/
structure Store.Trails (sink sink' : Sink) (store store' : Store) : Prop where
  scopes : store.scopes.AgreeOn (fun _ => True) store'.scopes
  lists_eq : store.lists = store'.lists
  console : sink.Unfailing → sink'.FailsForGood → store.console.Trails sink' store'.console

namespace Builtin

end Builtin

namespace Builtins

end Builtins

/-! ## Evaluation -/

namespace Accord

variable {sink sink' : Sink} {m m' : Machine}

end Accord

/-- A sink may refuse in the middle of a value: here it takes the sign of a number and no more. -/
example :
    let sink : Sink := fun history _ => if history = [] then none else some "sink full"
    let code : Code := [.expr (.call (.ident "print") [.int (-5)])]
    let m := Machine.empty.newRoot.2
    (evalProgram { options := {}, builtins := .standard, sink } 9 code 0 m).map
      (fun r => (r.1, r.2.console.text, r.2.faults.toList)) =
        some (.nil, "-", [.output "sink full"]) := by
  decide +kernel

end Scriptlet
