import Scriptlet.Builtin.Standard
import Scriptlet.Operation
import Scriptlet.Proofs.Lookups

/-!
# What holds of all that is stored

Scopes, lists and faults hold values. A property of values that literals have, and that is passed on
from a value to what is taken out of it, is an `Invariant`; it may speak of the scopes and the lists
that exist. Operators and indexing pass it on, and so do the standard built-in functions, whatever
the property is: what they give they were given, or it is made of nothing.

An invariant can say that no list contains itself: a `Ranking` gives lists numbers, and a list may
refer to lists of lower numbers only. New lists are ranked by age.
-/

namespace Scriptlet

def Fault.values : Fault → List Value
  | prefixOperand _ v => [v]
  | infixOperands _ l r => [l, r]
  | divisionByZero .. => []
  | unbound _ => []
  | notAFunction v => [v]
  | arity .. => []
  | argument _ v => [v]
  | emptyList _ => []
  | indexTarget v => [v]
  | indexOperand v => [v]
  | indexRange list _ => [list]
  | output _ => []

/-- Whether a value refers to nothing: to no list, to no scope and to no other value. -/
def Value.isAtom : Value → Bool
  | int _ | bool _ | str _ | nil | builtin _ => true
  | list _ | func _ | returned _ => false

/-- Numbers of lists, of which those from an address on are the addresses themselves. -/
structure Ranking where
  rank : ListId → Nat
  floor : Nat
  rank_eq : ∀ {a}, floor ≤ a → rank a = a
  rank_lt : ∀ {a}, a < floor → rank a < floor

namespace Ranking

def age : Ranking where
  rank := id
  floor := 0
  rank_eq _ := rfl
  rank_lt h := absurd h (Nat.not_lt_zero _)

theorem rank_lt_of_lt (ranking : Ranking) {a k : Nat} (hk : ranking.floor ≤ k) (ha : a < k) :
    ranking.rank a < k := by
  by_cases h : a < ranking.floor
  · exact Nat.lt_of_lt_of_le (ranking.rank_lt h) hk
  · rwa [ranking.rank_eq (Nat.le_of_not_lt h)]

end Ranking

/-- A property of what a state stores, given the number of scopes and the number of lists. -/
structure Invariant where
  ranking : Ranking := .age
  value : Nat → Nat → Value → Prop
  fault : Nat → Nat → Fault → Prop
  /-- Of a scope and the scope around it. -/
  outer : ScopeId → ScopeId → Prop
  value_mono : ∀ {n n' k k' v}, n ≤ n' → k ≤ k' → value n k v → value n' k' v
  fault_mono : ∀ {n n' k k' f}, n ≤ n' → k ≤ k' → fault n k f → fault n' k' f
  atom : ∀ {n k v}, v.isAtom = true → value n k v
  list : ∀ {n k a}, ranking.floor ≤ a → a < k → value n k (.list a)
  func : ∀ {n k label params body s}, s < n → value n k (.func ⟨label, params, body, s⟩)
  arrived : ∀ {n k v}, value n k v → value n k v.arrived
  fault_of_values : ∀ {n k f}, (∀ v ∈ f.values, value n k v) → fault n k f
  outer_of_lt : ∀ {n s}, s < n → outer n s
  outer_of_func : ∀ {n k c}, value n k (.func c) → outer n c.scope

def Invariant.lenient (inv : Invariant) : Invariant :=
  { inv with
    fault := fun _ _ _ => True
    fault_mono := fun _ _ h => h
    fault_of_values := fun _ => trivial }

/-- The elements of all lists have a property. They may refer to lists of lower rank only, if the
property says where values refer to. -/
structure Lists.Obeys (inv : Invariant) (n : Nat) (lists : Lists) : Prop where
  floor_le : inv.ranking.floor ≤ lists.size
  element : ∀ a, ∀ v ∈ lists.elements a, inv.value n (inv.ranking.rank a) v

/-! ## Operations -/

def Answers {α : Type} (r : Except Fault α) (P : α → Prop) (Q : Fault → Prop) : Prop :=
  match r with
  | .ok a => P a
  | .error fault => Q fault

theorem Answers.mono {α : Type} {r : Except Fault α} {P P' : α → Prop} {Q Q' : Fault → Prop}
    (h : Answers r P Q) (hP : ∀ a, P a → P' a) (hQ : ∀ fault, Q fault → Q' fault) :
    Answers r P' Q' := by
  cases r with
  | ok a => exact hP a h
  | error fault => exact hQ fault h

/-- An operator gives an atom, or a fault about its operand. -/
theorem PrefixOp.apply_spec (lists : Lists) (op : PrefixOp) (v : Value) :
    Answers (op.apply lists v) (·.isAtom = true) (∀ w ∈ ·.values, w = v) := by
  cases op with
  | not => rfl
  | minus => cases v <;> simp [PrefixOp.apply, Answers, Value.isAtom, Fault.values]

theorem InfixOp.onIntegers_spec (op : InfixOp) (a b : Int64) :
    Answers (op.onIntegers a b) (·.isAtom = true) (·.values = []) := by
  cases op with
  | div | mod =>
    rw [InfixOp.onIntegers]
    split <;> rfl
  | _ => rfl

theorem InfixOp.onTruths_spec (lists : Lists) (op : InfixOp) (l r : Value) :
    Answers (op.onTruths lists l r) (·.isAtom = true) (·.values = [l, r]) := by
  cases op <;> rfl

/-- An operator gives an atom, or a fault about its operands. -/
theorem InfixOp.apply_spec (lists : Lists) (op : InfixOp) (l r : Value) :
    Answers (op.apply lists l r) (·.isAtom = true) (∀ w ∈ ·.values, w = l ∨ w = r) := by
  have integers (a b : Int64) : Answers (op.onIntegers a b) (·.isAtom = true)
      (∀ w ∈ ·.values, w = l ∨ w = r) :=
    (op.onIntegers_spec a b).mono (fun _ h => h) fun fault h => by simp [h]
  have truths : Answers (op.onTruths lists l r) (·.isAtom = true)
      (∀ w ∈ ·.values, w = l ∨ w = r) :=
    (op.onTruths_spec lists l r).mono (fun _ h => h) fun fault h => by simp [h]
  unfold InfixOp.apply
  split
  · split
    · rfl
    · exact truths
  · exact integers _ _
  · exact integers _ _
  · exact truths

theorem Lists.mem_of_element? {lists : Lists} {a : ListId} {i : Int64} {v : Value}
    (h : lists.element? a i = some v) : v ∈ lists.elements a := by
  rw [Lists.element?] at h
  split at h
  · exact List.mem_of_getElem? h
  · cases h

/-- Indexing gives an element of the list, or a fault about the list or the position. -/
theorem Value.index_spec (lists : Lists) (target position : Value) :
    Answers (target.index lists position) (fun w => ∃ a, target = .list a ∧ w ∈ lists.elements a)
      (∀ w ∈ ·.values, w = target ∨ w = position) := by
  unfold Value.index
  split
  next a i =>
    cases h : lists.element? a i with
    | none => simp [Answers, Fault.values]
    | some v => exact ⟨a, rfl, Lists.mem_of_element? h⟩
  · simp [Answers, Fault.values]
  · simp [Answers, Fault.values]

/-! ## Lists -/

namespace Lists

variable {inv : Invariant} {n : Nat} {lists : Lists} {a : ListId} {v : Value} {vs : List Value}

theorem elements_of_size_le (h : lists.size ≤ a) : lists.elements a = [] := by
  simp only [size] at h
  simp [elements, h]

theorem lt_size_of_mem (h : v ∈ lists.elements a) : a < lists.size := by
  refine Nat.lt_of_not_le fun ha => ?_
  rw [elements_of_size_le ha] at h
  cases h

theorem Obeys.mono {n' : Nat} (h : lists.Obeys inv n) (hn : n ≤ n') : lists.Obeys inv n' :=
  ⟨h.floor_le, fun a v hv => inv.value_mono hn (Nat.le_refl _) (h.element a v hv)⟩

theorem Obeys.admits (h : lists.Obeys inv n) (hv : v ∈ lists.elements a) :
    inv.value n lists.size v := by
  have hrank := inv.ranking.rank_lt_of_lt h.floor_le (lt_size_of_mem hv)
  exact inv.value_mono (Nat.le_refl n) (Nat.le_of_lt hrank) (h.element a v hv)

theorem Obeys.alloc (h : lists.Obeys inv n) (hvs : ∀ v ∈ vs, inv.value n lists.size v) :
    (lists.alloc vs).Obeys inv n where
  floor_le := Nat.le_trans h.floor_le (by simp)
  element a v hv := by
    have ha : a < lists.size + 1 := by simpa using lt_size_of_mem hv
    rcases Nat.lt_succ_iff_lt_or_eq.1 ha with ha | rfl
    · rw [elements_alloc_of_lt ha] at hv
      exact h.element a v hv
    · rw [elements_alloc_self] at hv
      rw [inv.ranking.rank_eq h.floor_le]
      exact hvs v hv

theorem Obeys.update (h : lists.Obeys inv n) (hvs : vs ⊆ lists.elements a) :
    (lists.update a vs).Obeys inv n where
  floor_le := by simpa using h.floor_le
  element b v hv := by
    by_cases hab : a = b
    · subst hab
      rw [elements_update_self (by simpa using lt_size_of_mem hv)] at hv
      exact h.element a v (hvs hv)
    · rw [elements_update_of_ne hab] at hv
      exact h.element b v hv

end Lists

/-! ## Built-in functions -/

structure Store.Obeys (inv : Invariant) (store : Store) : Prop where
  bound : ∀ s name v, store.scopes.own? s name = some v →
    inv.value store.scopes.size store.lists.size v
  outer : ∀ s o, store.scopes.outer? s = some o → inv.outer s o
  listed : store.lists.Obeys inv store.scopes.size

/-- The result of a built-in function and what it leaves behind. It removes no scope and no list. -/
structure Store.Yields (inv : Invariant) (before : Store) (result : Except Fault Value)
    (after : Store) : Prop where
  scopes : before.scopes.size ≤ after.scopes.size
  lists : before.lists.size ≤ after.lists.size
  obeys : after.Obeys inv
  answers : Answers result (inv.value after.scopes.size after.lists.size)
    (inv.fault after.scopes.size after.lists.size)

/-- A built-in function computes and stores only what has a property, if everything that it can see
has it. -/
def Builtin.Respects (inv : Invariant) (b : Builtin) : Prop :=
  ∀ sink args store, store.Obeys inv →
    (∀ v ∈ args, inv.value store.scopes.size store.lists.size v) →
      ∀ result after, b.action sink args store = some (result, after) →
        store.Yields inv result after

def Builtins.Respect (inv : Invariant) (builtins : Builtins) : Prop :=
  ∀ b ∈ builtins.table, b.Respects inv

namespace Builtin

structure Gives (inv : Invariant) (n : Nat) (lists : Lists) (r : Value × Lists) : Prop where
  size_le : lists.size ≤ r.2.size
  obeys : r.2.Obeys inv n
  value : inv.value n r.2.size r.1

variable {inv : Invariant} {n : Nat} {lists : Lists} {args : List Value}

/-- Scopes stay as they are. -/
theorem yields_of_lists {store : Store} (h : store.Obeys inv) {result : Except Fault Value}
    {lists : Lists} {console : Console} (hsize : store.lists.size ≤ lists.size)
    (hlists : lists.Obeys inv store.scopes.size)
    (hresult : Answers result (inv.value store.scopes.size lists.size)
      (inv.fault store.scopes.size lists.size)) :
    store.Yields inv result ⟨store.scopes, lists, console⟩ where
  scopes := Nat.le_refl _
  lists := hsize
  obeys := ⟨fun s name v hv => inv.value_mono (Nat.le_refl _) hsize (h.bound s name v hv), h.outer,
    hlists⟩
  answers := hresult

theorem respects_pure {name : String} {f : List Value → Lists → Except Fault (Value × Lists)}
    (h : ∀ n args lists, (∀ v ∈ args, inv.value n lists.size v) → lists.Obeys inv n →
      Answers (f args lists) (Gives inv n lists) (inv.fault n lists.size)) :
    (Builtin.pure name f).Respects inv := by
  intro sink args store hstore hargs result after haction
  have hf := h store.scopes.size args store.lists hargs hstore.listed
  simp only [Builtin.pure, onLists] at haction
  cases hr : f args store.lists with
  | ok r =>
    rw [hr] at hf haction
    cases haction
    exact yields_of_lists hstore hf.size_le hf.obeys hf.value
  | error fault =>
    rw [hr] at hf haction
    cases haction
    exact yields_of_lists hstore (Nat.le_refl _) hstore.listed hf

theorem gives_atom (hlists : lists.Obeys inv n) {v : Value} (hv : v.isAtom = true) :
    Gives inv n lists (v, lists) :=
  ⟨Nat.le_refl _, hlists, inv.atom hv⟩

theorem gives_element (hlists : lists.Obeys inv n) {a : ListId} {v : Value}
    (hv : v ∈ lists.elements a) : Gives inv n lists (v, lists) :=
  ⟨Nat.le_refl _, hlists, hlists.admits hv⟩

theorem gives_new (hlists : lists.Obeys inv n) {vs : List Value}
    (hvs : ∀ v ∈ vs, inv.value n lists.size v) :
    Gives inv n lists (.list lists.size, lists.alloc vs) where
  size_le := by simp
  obeys := hlists.alloc hvs
  value := inv.list hlists.floor_le (by simp)

theorem gives_taken (hlists : lists.Obeys inv n) {a : ListId} {v : Value} {vs : List Value}
    (hv : v ∈ lists.elements a) (hvs : vs ⊆ lists.elements a) :
    Gives inv n lists (v, lists.update a vs) where
  size_le := by simp
  obeys := hlists.update hvs
  value := by simpa using hlists.admits hv

section

variable {α β : Type} {P : β → Prop}

theorem fault_of_values_eq_nil {fault : Fault} {k : Nat} (h : fault.values = []) :
    inv.fault n k fault :=
  inv.fault_of_values fun v hv => by simp [h] at hv

theorem answers_oneArgument {next : Value → Except Fault β} {k : Nat}
    (h : ∀ v, args = [v] → Answers (next v) P (inv.fault n k)) :
    Answers (oneArgument args >>= next) P (inv.fault n k) := by
  rcases args with _ | ⟨v, _ | _⟩
  · exact fault_of_values_eq_nil rfl
  · exact h v rfl
  · exact fault_of_values_eq_nil rfl

theorem answers_twoArguments {next : Value × Value → Except Fault β} {k : Nat}
    (h : ∀ v w, args = [v, w] → Answers (next (v, w)) P (inv.fault n k)) :
    Answers (twoArguments args >>= next) P (inv.fault n k) := by
  rcases args with _ | ⟨v, _ | ⟨w, _ | _⟩⟩
  · exact fault_of_values_eq_nil rfl
  · exact fault_of_values_eq_nil rfl
  · exact h v w rfl
  · exact fault_of_values_eq_nil rfl

theorem answers_listArgument {name : String} {v : Value} {next : ListId → Except Fault β} {k : Nat}
    (hv : inv.value n k v) (h : ∀ a, v = .list a → Answers (next a) P (inv.fault n k)) :
    Answers (listArgument name v >>= next) P (inv.fault n k) := by
  have failed : inv.fault n k (.argument name v) :=
    inv.fault_of_values fun w hw => by
      obtain rfl := List.mem_singleton.1 hw
      exact hv
  cases v with
  | list a => exact h a rfl
  | _ => exact failed

end

variable (inv)

theorem print_respects : Builtin.print.Respects inv := by
  intro sink args store hstore _ result after haction
  simp only [print, onLists, Option.map_map, Option.map_eq_some_iff] at haction
  obtain ⟨⟨refusal, console⟩, -, haction⟩ := haction
  cases refusal with
  | none =>
    cases haction
    exact yields_of_lists hstore (Nat.le_refl _) hstore.listed (inv.atom rfl)
  | some reason =>
    cases haction
    exact yields_of_lists hstore (Nat.le_refl _) hstore.listed (fault_of_values_eq_nil rfl)

theorem len_respects : Builtin.len.Respects inv :=
  respects_pure fun n args lists hargs hlists => answers_oneArgument fun v hv => by
    subst hv
    have hv := hargs v (List.mem_singleton_self v)
    split
    · exact gives_atom hlists rfl
    · exact gives_atom hlists rfl
    · exact inv.fault_of_values fun w hw => by
        obtain rfl := List.mem_singleton.1 hw
        exact hv

theorem head_respects : Builtin.head.Respects inv :=
  respects_pure fun n args lists hargs hlists => answers_oneArgument fun v hv => by
    refine answers_listArgument (hargs v (by simp [hv])) fun a _ => ?_
    split
    · exact fault_of_values_eq_nil rfl
    next w ws hws => exact gives_element hlists (a := a) (by simp [hws])

theorem tail_respects : Builtin.tail.Respects inv :=
  respects_pure fun n args lists hargs hlists => answers_oneArgument fun v hv => by
    refine answers_listArgument (hargs v (by simp [hv])) fun a _ => ?_
    split
    · exact fault_of_values_eq_nil rfl
    next w ws hws =>
      exact gives_new hlists fun u hu => hlists.admits (a := a) (by simp [hws, hu])

theorem append_respects : Builtin.append.Respects inv :=
  respects_pure fun n args lists hargs hlists => answers_twoArguments fun v w hvw => by
    refine answers_listArgument (hargs v (by simp [hvw])) fun a _ => gives_new hlists fun u hu => ?_
    rcases List.mem_append.1 hu with hu | hu
    · exact hlists.admits hu
    · exact hargs u (by simp [hvw, List.mem_singleton.1 hu])

theorem prepend_respects : Builtin.prepend.Respects inv :=
  respects_pure fun n args lists hargs hlists => answers_twoArguments fun v w hvw => by
    refine answers_listArgument (hargs v (by simp [hvw])) fun a _ => gives_new hlists fun u hu => ?_
    rcases List.mem_cons.1 hu with rfl | hu
    · exact hargs u (by simp [hvw])
    · exact hlists.admits hu

theorem pop_respects : Builtin.pop.Respects inv :=
  respects_pure fun n args lists hargs hlists => answers_oneArgument fun v hv => by
    refine answers_listArgument (hargs v (by simp [hv])) fun a _ => ?_
    split
    · exact fault_of_values_eq_nil rfl
    next w hw =>
      exact gives_taken hlists (List.mem_of_getLast? hw) (List.dropLast_subset _)

theorem shift_respects : Builtin.shift.Respects inv :=
  respects_pure fun n args lists hargs hlists => answers_oneArgument fun v hv => by
    refine answers_listArgument (hargs v (by simp [hv])) fun a _ => ?_
    split
    · exact fault_of_values_eq_nil rfl
    next w ws hws =>
      exact gives_taken hlists (by simp [hws]) (by simp [hws])

theorem type_respects : Builtin.type.Respects inv :=
  respects_pure fun _ _ _ _ hlists => answers_oneArgument fun _ _ => gives_atom hlists rfl

end Builtin

/-- The standard functions make up nothing: what they give they were given, or it is a number, a
text, nil or a new list. -/
theorem Builtins.standard_respect (inv : Invariant) : Builtins.standard.Respect inv := by
  simp [Respect, standard, Builtin.print_respects, Builtin.len_respects, Builtin.head_respects,
    Builtin.tail_respects, Builtin.append_respects, Builtin.prepend_respects, Builtin.pop_respects,
    Builtin.shift_respects, Builtin.type_respects]

end Scriptlet
