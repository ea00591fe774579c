import Scriptlet.Proofs.Descent
import Scriptlet.Proofs.Upkeep

/-!
# Lists that do not contain themselves

An embedder can put a list into itself. Such a list has no text, and printing it does not end. A
program cannot: it puts lists into new lists only. So if no list contains itself to begin with, then
none ever does, and all that is printed has a text. Age is of no use here, because an embedder may
have put newer lists into older ones. What falls on the way down into a list is the number of lists
that are left to come to, and that is a rank for the lists that are there at the beginning.
-/

namespace Scriptlet

/-- No list contains itself, and the lists that are referred to exist. -/
structure Machine.LoopFree (m : Machine) : Prop where
  bound : ∀ s name v, m.scopes.own? s name = some v → ∀ a, v.list? = some a → a < m.lists.size
  listed : ∀ a b, m.lists.Contains a b → b < m.lists.size
  irrefl : ∀ a, ¬Relation.TransGen m.lists.Contains a a

theorem Value.list?_arrived (v : Value) : v.arrived.list? = v.list? := by
  cases v <;> rfl

theorem Value.list?_of_isAtom {v : Value} (h : v.isAtom = true) : v.list? = none := by
  cases v with
  | list | returned => cases h
  | _ => rfl

/-! ## Ranks -/

theorem Ranking.rank_lt_iff (ranking : Ranking) {a k : Nat} (hk : ranking.floor ≤ k) :
    ranking.rank a < k ↔ a < k := by
  refine ⟨fun h => ?_, ranking.rank_lt_of_lt hk⟩
  by_cases ha : a < ranking.floor
  · exact Nat.lt_of_lt_of_le ha hk
  · rwa [ranking.rank_eq (Nat.le_of_not_lt ha)] at h

def Invariant.ranked (ranking : Ranking) : Invariant where
  ranking := ranking
  value _ k v := ∀ a, v.list? = some a → ranking.rank a < k
  fault _ _ _ := True
  outer _ _ := True
  value_mono _ hk h a ha := Nat.lt_of_lt_of_le (h a ha) hk
  fault_mono _ _ h := h
  atom h a ha := by
    rw [Value.list?_of_isAtom h] at ha
    cases ha
  list hfloor ha b hb := by
    obtain rfl := Option.some.inj hb
    rwa [ranking.rank_eq hfloor]
  func _ _ := nofun
  arrived {_ _ v} h := by rwa [v.list?_arrived]
  fault_of_values _ := trivial
  outer_of_lt _ := trivial
  outer_of_func _ := trivial

namespace Lists.Obeys

variable {ranking : Ranking} {n : Nat} {lists : Lists}

theorem rank_lt (h : lists.Obeys (.ranked ranking) n) {a b : ListId} (hab : lists.Contains a b) :
    ranking.rank b < ranking.rank a := by
  obtain ⟨v, hv, hb⟩ := hab
  exact h.element a v hv b hb

theorem bottoms (h : lists.Obeys (.ranked ranking) n) (a : ListId) : lists.Bottoms a := by
  induction hrank : ranking.rank a using Nat.strongRecOn generalizing a with
  | ind rank ih => exact ⟨a, fun b hab => ih _ (hrank ▸ h.rank_lt hab) b rfl⟩

theorem isFinite (h : lists.Obeys (.ranked ranking) n) (v : Value) : v.isFinite lists = true :=
  Value.isFinite_of_bottoms fun a _ => h.bottoms a

end Lists.Obeys

/-- Lists by the number of lists that they contain at any depth. -/
noncomputable def Lists.ranking (lists : Lists)
    (h : ∀ a, ¬Relation.TransGen lists.Contains a a) : Ranking where
  rank a := if a < lists.size then (lists.inside a).ncard else a
  floor := lists.size
  rank_eq ha := if_neg (Nat.not_lt.2 ha)
  rank_lt {a} ha := by
    rw [if_pos ha]
    exact ncard_inside_lt_size ha (h a)

/-- No list contains itself exactly if lists can be ranked. -/
theorem Machine.loopFree_iff {m : Machine} :
    m.LoopFree ↔ ∃ ranking, m.Obeys (.ranked ranking) := by
  constructor
  · intro h
    let ranking := m.lists.ranking h.irrefl
    refine ⟨ranking, fun s name v hv a ha => ?_, fun _ _ _ => trivial,
      ⟨Nat.le_refl m.lists.size, fun a v hv b hb => ?_⟩, fun _ _ => trivial⟩
    · exact (ranking.rank_lt_iff (Nat.le_refl _)).2 (h.bound s name v hv a ha)
    · have hab : m.lists.Contains a b := ⟨v, hv, hb⟩
      have hsize := h.listed a b hab
      show (if b < m.lists.size then _ else _) < if a < m.lists.size then _ else _
      rw [if_pos hsize, if_pos (Lists.lt_size_of_mem hv)]
      exact Lists.ncard_inside_lt hab hsize (h.irrefl b)
  · rintro ⟨ranking, h⟩
    have hfloor := h.listed.floor_le
    refine ⟨fun s name v hv a ha => ?_, fun a b hab => ?_, fun a => (h.listed.bottoms a).irrefl⟩
    · exact (ranking.rank_lt_iff hfloor).1 (h.bound s name v hv a ha)
    · obtain ⟨v, hv, hb⟩ := hab
      exact (ranking.rank_lt_iff hfloor).1 (h.listed.admits hv b hb)

theorem Machine.LoopFree.isFinite {m : Machine} (h : m.LoopFree) (v : Value) :
    v.isFinite m.lists = true := by
  obtain ⟨ranking, h⟩ := loopFree_iff.1 h
  exact h.listed.isFinite v

/-- A program with the standard functions does not put a list into itself. -/
theorem Machine.LoopFree.evalProgram {ctx : Context} (hb : ctx.builtins = .standard) {m : Machine}
    (h : m.LoopFree) {s : ScopeId} (hs : s < m.scopes.size) (fuel : Nat) (code : Code) :
    (evalProgram ctx fuel code s m).Yields fun _ m' => m'.LoopFree := by
  obtain ⟨ranking, h⟩ := loopFree_iff.1 h
  exact (evalProgram_reaches (hb ▸ Builtins.standard_respect _) h hs fuel code).mono
    fun _ _ hv => loopFree_iff.2 ⟨ranking, hv.obeys⟩

/-! ## Printing -/

theorem Console.writeAll_append (sink : Sink) (pieces pieces' : List String) (console : Console) :
    console.writeAll sink (pieces ++ pieces') =
      match console.writeAll sink pieces with
      | (some reason, console) => (some reason, console)
      | (none, console) => console.writeAll sink pieces' := by
  induction pieces generalizing console with
  | nil => rfl
  | cons piece pieces ih =>
    simp only [List.cons_append, Console.writeAll]
    cases console.write sink piece with
    | mk refusal console =>
      cases refusal with
      | none => exact ih console
      | some reason => rfl

namespace Builtin

variable {lists : Lists} {args : List Value}

/-- The pieces in which values are printed, each value on a line of its own. -/
def linePieces (lists : Lists) (args : List Value) : List String :=
  args.flatMap fun v => v.pieces lists ++ ["\n"]

theorem join_linePieces (lists : Lists) (args : List Value) :
    String.join (linePieces lists args) =
      String.join (args.map fun v => v.display lists ++ "\n") := by
  induction args with
  | nil => rfl
  | cons v vs ih =>
    rw [linePieces, List.flatMap_cons, String.join_append, String.join_append, v.join_pieces]
    rw [linePieces] at ih
    simp [ih, String.join_cons]

theorem printLines_eq_writeAll (h : ∀ v ∈ args, v.isFinite lists = true) (sink : Sink)
    (console : Console) :
    printLines sink lists console args = some (console.writeAll sink (linePieces lists args)) := by
  induction args generalizing console with
  | nil => rfl
  | cons v vs ih =>
    obtain ⟨hv, hvs⟩ := List.forall_mem_cons.1 h
    rw [linePieces, List.flatMap_cons, Console.writeAll_append, printLines, if_pos hv]
    cases console.writeAll sink (v.pieces lists ++ ["\n"]) with
    | mk refusal console =>
      cases refusal with
      | none => exact ih hvs console
      | some reason => rfl

theorem pure_isSome (name : String) (f : List Value → Lists → Except Fault (Value × Lists))
    (sink : Sink) (store : Store) : ((Builtin.pure name f).action sink args store).isSome := by
  simp only [Builtin.pure, onLists, Option.isSome_map]
  cases f args store.lists <;> rfl

end Builtin

/-- A call of a standard function ends if its arguments have texts. -/
theorem Builtins.standard_isSome {b : Builtin} (hb : b ∈ standard.table) (sink : Sink)
    {args : List Value} {store : Store} (h : ∀ v ∈ args, v.isFinite store.lists = true) :
    (b.action sink args store).isSome := by
  simp only [standard, List.mem_cons, List.not_mem_nil, or_false] at hb
  rcases hb with rfl | rfl | rfl | rfl | rfl | rfl | rfl | rfl | rfl
  · simp only [Builtin.print, Builtin.onLists, Builtin.printLines_eq_writeAll h, Option.isSome_map,
      Option.isSome_some]
  all_goals exact Builtin.pure_isSome _ _ sink store

end Scriptlet
