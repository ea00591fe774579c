import Scriptlet.Proofs.Invariants

/-!
# Lists as double-ended queues

The functions on lists serve as a queue with two ends that is shared by all who hold it: `append`,
`prepend` and `tail` copy, `pop` and `shift` change the one list that they are given, and `head` and
`len` only look. Which calls of a standard function are refused, and why, is a function of the
arguments and the lists (`refusal?`); a call that is refused leaves everything as it was.
-/

namespace Scriptlet

def Builtins.call? (builtins : Builtins) (name : String) (sink : Sink) (args : List Value)
    (store : Store) : Option (Except Fault Value × Store) :=
  (builtins.find? name).bind fun b => b.action sink args store

namespace Lists

/-- One list was made. No list had its address, and all lists that were there are as they were. -/
structure Gains (before after : Lists) (b : ListId) (vs : List Value) : Prop where
  fresh : before.size ≤ b
  there : b < after.size
  size : after.size = before.size + 1
  elements : after.elements b = vs
  kept : ∀ c < before.size, after.elements c = before.elements c

/-- One list that is there got other elements. All others are as they were. -/
structure Replaces (before after : Lists) (a : ListId) (vs : List Value) : Prop where
  size : after.size = before.size
  elements : after.elements a = vs
  kept : ∀ c, c ≠ a → after.elements c = before.elements c

variable {lists : Lists} {a : ListId} {vs : List Value}

theorem gains_alloc (lists : Lists) (vs : List Value) :
    lists.Gains (lists.alloc vs) lists.size vs where
  fresh := Nat.le_refl _
  there := by simp
  size := size_alloc lists vs
  elements := elements_alloc_self lists vs
  kept := fun _ hc => elements_alloc_of_lt hc

theorem replaces_update (ha : a < lists.size) : lists.Replaces (lists.update a vs) a vs where
  size := size_update lists a vs
  elements := elements_update_self ha
  kept := fun _ hc => elements_update_of_ne hc.symm

end Lists

/-! ## Refused calls -/

namespace Builtin

def argumentCount (name : String) : Nat :=
  if name = "append" ∨ name = "prepend" then 2 else 1

def accepts (name : String) : Value → Bool
  | .list _ => true
  | .str _ => name = "len" || name = "type"
  | _ => name = "type"

def needsElement (name : String) : Bool :=
  name = "head" || name = "tail" || name = "pop" || name = "shift"

/-- Why a standard function that does not print refuses a call, if it does. The number of arguments
comes first, then the kind of the first one, then whether there is an element. -/
def refusal? (lists : Lists) (name : String) (args : List Value) : Option Fault :=
  if args.length = argumentCount name then
    match args with
    | [] => none
    | .list a :: _ =>
      if needsElement name && (lists.elements a).isEmpty then some (.emptyList name) else none
    | v :: _ => if accepts name v then none else some (.argument name v)
  else some (.arity (argumentCount name) args.length)

/-- What is computed from the arguments of a call fails exactly if the call is refused, and with the
fault that it is refused with. -/
def RefusedAs {α : Type} (lists : Lists) (name : String) (args : List Value)
    (r : Except Fault α) : Prop :=
  Answers r (fun _ => refusal? lists name args = none) (refusal? lists name args = some ·)

def Refuses (b : Builtin) : Prop :=
  ∀ sink args store, ∃ result after, b.action sink args store = some (result, after) ∧
    match result with
    | .ok _ => refusal? store.lists b.name args = none ∧ after.console = store.console
    | .error fault => refusal? store.lists b.name args = some fault ∧ after = store

section

variable {α : Type} {name : String} {args : List Value} {lists : Lists}

theorem pure_action {f : List Value → Lists → Except Fault (Value × Lists)} {r : Value × Lists}
    {sink : Sink} {store : Store} (h : f args store.lists = .ok r) :
    (Builtin.pure name f).action sink args store =
      some (.ok r.1, ⟨store.scopes, r.2, store.console⟩) := by
  unfold Builtin.pure onLists
  simp only [h, Option.map_some]

theorem refuses_pure {f : List Value → Lists → Except Fault (Value × Lists)}
    (h : ∀ args lists, RefusedAs lists name args (f args lists)) :
    (Builtin.pure name f).Refuses := by
  intro sink args store
  have hf := h args store.lists
  cases hr : f args store.lists with
  | ok r =>
    rw [hr] at hf
    exact ⟨_, _, pure_action hr, hf, rfl⟩
  | error fault =>
    rw [hr] at hf
    refine ⟨.error fault, store, ?_, hf, rfl⟩
    unfold Builtin.pure onLists
    simp only [hr, Option.map_some]

theorem refusal?_of_count {expected : Nat} (hcount : argumentCount name = expected)
    (h : args.length ≠ expected) :
    refusal? lists name args = some (.arity expected args.length) := by
  subst hcount
  unfold refusal?
  rw [if_neg h]

theorem refusal?_of_not_accepted {v : Value} {vs : List Value}
    (hcount : (v :: vs).length = argumentCount name) (h : accepts name v = false) :
    refusal? lists name (v :: vs) = some (.argument name v) := by
  unfold refusal?
  rw [if_pos hcount]
  cases v with
  | list a => cases h
  | _ => simp [h]

theorem refusal?_of_list {a : ListId} {vs : List Value}
    (hcount : (Value.list a :: vs).length = argumentCount name) :
    refusal? lists name (.list a :: vs) =
      if needsElement name && (lists.elements a).isEmpty then some (.emptyList name) else none := by
  unfold refusal?
  rw [if_pos hcount]

/-- A function of one argument goes on with it, or refuses for their number. -/
theorem refusedAs_oneArgument {next : Value → Except Fault α} (hcount : argumentCount name = 1)
    (h : ∀ v, RefusedAs lists name [v] (next v)) :
    RefusedAs lists name args (oneArgument args >>= next) := by
  match args with
  | [] => exact refusal?_of_count hcount (by simp)
  | [v] => exact h v
  | v :: w :: vs => exact refusal?_of_count hcount (by simp)

theorem refusedAs_twoArguments {next : Value × Value → Except Fault α}
    (hcount : argumentCount name = 2) (h : ∀ v w, RefusedAs lists name [v, w] (next (v, w))) :
    RefusedAs lists name args (twoArguments args >>= next) := by
  match args with
  | [] => exact refusal?_of_count hcount (by simp)
  | [v] => exact refusal?_of_count hcount (by simp)
  | [v, w] => exact h v w
  | v :: w :: u :: vs => exact refusal?_of_count hcount (by simp)

/-- A function that is about lists only goes on with the address of one, or refuses for the kind of
the argument. -/
theorem refusedAs_listArgument {v : Value} {vs : List Value} {next : ListId → Except Fault α}
    (hcount : (v :: vs).length = argumentCount name) (honly : name ≠ "len" ∧ name ≠ "type")
    (h : ∀ a, v = .list a → RefusedAs lists name (v :: vs) (next a)) :
    RefusedAs lists name (v :: vs) (listArgument name v >>= next) := by
  cases v with
  | list a => exact h a rfl
  | _ => exact refusal?_of_not_accepted hcount (by simp [accepts, honly])

/-- A function of one list that needs an element of it. -/
theorem refusedAs_needing {next : ListId → Except Fault α} (hcount : argumentCount name = 1)
    (honly : name ≠ "len" ∧ name ≠ "type") (hneeds : needsElement name = true)
    (hempty : ∀ a, lists.elements a = [] → next a = .error (.emptyList name))
    (hsome : ∀ a, lists.elements a ≠ [] → ∃ r, next a = .ok r) :
    RefusedAs lists name args (oneArgument args >>= fun v => listArgument name v >>= next) := by
  apply refusedAs_oneArgument hcount
  intro v
  have hlength : [v].length = argumentCount name := hcount.symm
  apply refusedAs_listArgument hlength honly
  intro a hv
  subst hv
  by_cases ha : lists.elements a = []
  · rw [hempty a ha]
    show refusal? lists name [.list a] = some (.emptyList name)
    simp [refusal?_of_list hlength, hneeds, ha]
  · obtain ⟨r, hr⟩ := hsome a ha
    rw [hr]
    show refusal? lists name [.list a] = none
    simp [refusal?_of_list hlength, hneeds, ha]

/-- A function of one list that goes by its first element. -/
theorem refuses_first (hcount : argumentCount name = 1) (honly : name ≠ "len" ∧ name ≠ "type")
    (hneeds : needsElement name = true)
    (result : Lists → ListId → Value → List Value → Value × Lists) :
    (Builtin.pure name fun args lists => do
      let a ← listArgument name (← oneArgument args)
      match lists.elements a with
      | [] => throw (.emptyList name)
      | v :: vs => return result lists a v vs).Refuses := by
  apply refuses_pure
  intro args lists
  apply refusedAs_needing hcount honly hneeds
  · intro a ha
    rw [ha]
    rfl
  · intro a ha
    obtain ⟨v, vs, hvs⟩ := List.exists_cons_of_ne_nil ha
    exact ⟨result lists a v vs, by rw [hvs]; rfl⟩

/-- A function of a list and any value that makes a new list of them. -/
theorem refuses_adding (hcount : argumentCount name = 2) (honly : name ≠ "len" ∧ name ≠ "type")
    (hneeds : needsElement name = false) (elements : Lists → ListId → Value → List Value) :
    (Builtin.pure name fun args lists => do
      let (list, v) ← twoArguments args
      let a ← listArgument name list
      return (.list lists.size, lists.alloc (elements lists a v))).Refuses := by
  apply refuses_pure
  intro args lists
  apply refusedAs_twoArguments hcount
  intro v w
  have hlength : [v, w].length = argumentCount name := hcount.symm
  apply refusedAs_listArgument hlength honly
  intro a hv
  subst hv
  show refusal? lists name [.list a, w] = none
  simp [refusal?_of_list hlength, hneeds]

end

theorem len_refuses : len.Refuses :=
  refuses_pure fun args lists => refusedAs_oneArgument (by decide) fun v => by
    cases v with
    | str s => rfl
    | list a => rfl
    | _ => rfl

theorem type_refuses : type.Refuses :=
  refuses_pure fun args lists => refusedAs_oneArgument (by decide) fun v => by
    show refusal? lists "type" [v] = none
    cases v <;> rfl

theorem head_refuses : head.Refuses :=
  refuses_first (by decide) (by decide) (by decide) fun lists _ v _ => (v, lists)

theorem tail_refuses : tail.Refuses :=
  refuses_first (by decide) (by decide) (by decide) fun lists _ _ vs =>
    (.list lists.size, lists.alloc vs)

theorem shift_refuses : shift.Refuses :=
  refuses_first (by decide) (by decide) (by decide) fun lists a v vs => (v, lists.update a vs)

theorem pop_refuses : pop.Refuses := by
  apply refuses_pure
  intro args lists
  apply refusedAs_needing (by decide) (by decide) (by decide)
  · intro a ha
    rw [ha]
    rfl
  · intro a ha
    have hlast := List.getLast?_eq_some_getLast ha
    exact ⟨((lists.elements a).getLast ha, lists.update a (lists.elements a).dropLast),
      by rw [hlast]; rfl⟩

theorem append_refuses : append.Refuses :=
  refuses_adding (by decide) (by decide) (by decide) fun lists a v => lists.elements a ++ [v]

theorem prepend_refuses : prepend.Refuses :=
  refuses_adding (by decide) (by decide) (by decide) fun lists a v => v :: lists.elements a

/-- Printing is refused by the sink only. -/
theorem print_refused {sink : Sink} {args : List Value} {store after : Store} {fault : Fault}
    (h : print.action sink args store = some (.error fault, after)) :
    after.scopes = store.scopes ∧ after.lists = store.lists ∧ ∃ reason, fault = .output reason := by
  simp only [print, onLists, Option.map_map, Option.map_eq_some_iff] at h
  obtain ⟨⟨_ | reason, console⟩, -, h⟩ := h
  · cases h
  · cases h
    exact ⟨rfl, rfl, reason, rfl⟩

end Builtin

/-- Every standard function but `print` refuses the calls that `refusal?` says. -/
theorem Builtins.standard_refuses {b : Builtin} (hb : b ∈ standard.table) :
    b = .print ∨ b.name ≠ "print" ∧ b.Refuses := by
  simp only [standard, List.mem_cons, List.not_mem_nil, or_false] at hb
  rcases hb with rfl | rfl | rfl | rfl | rfl | rfl | rfl | rfl | rfl
  · exact .inl rfl
  · exact .inr ⟨by decide, Builtin.len_refuses⟩
  · exact .inr ⟨by decide, Builtin.head_refuses⟩
  · exact .inr ⟨by decide, Builtin.tail_refuses⟩
  · exact .inr ⟨by decide, Builtin.append_refuses⟩
  · exact .inr ⟨by decide, Builtin.prepend_refuses⟩
  · exact .inr ⟨by decide, Builtin.pop_refuses⟩
  · exact .inr ⟨by decide, Builtin.shift_refuses⟩
  · exact .inr ⟨by decide, Builtin.type_refuses⟩

/-! ## Calls on a list -/

namespace Builtins

variable {sink : Sink} {scopes : Scopes} {lists : Lists} {console : Console} {a : ListId}
  {x : Value} {xs : List Value}

theorem call?_eq_some {builtins : Builtins} {name : String} {args : List Value} {store : Store}
    {r : Except Fault Value × Store} (h : builtins.call? name sink args store = some r) :
    ∃ b ∈ builtins.table, b.name = name ∧ b.action sink args store = some r := by
  unfold call? at h
  obtain ⟨b, hfind, hr⟩ := Option.bind_eq_some_iff.1 h
  have hname : b.name = name := by simpa using List.find?_some hfind
  exact ⟨b, List.mem_of_find?_eq_some hfind, hname, hr⟩

theorem call?_append (hxs : lists.elements a = xs) :
    ∃ b after, standard.call? "append" sink [.list a, x] ⟨scopes, lists, console⟩ =
      some (.ok (.list b), ⟨scopes, after, console⟩) ∧ lists.Gains after b (xs ++ [x]) := by
  subst hxs
  exact ⟨_, _, rfl, Lists.gains_alloc lists _⟩

theorem call?_prepend (hxs : lists.elements a = xs) :
    ∃ b after, standard.call? "prepend" sink [.list a, x] ⟨scopes, lists, console⟩ =
      some (.ok (.list b), ⟨scopes, after, console⟩) ∧ lists.Gains after b (x :: xs) := by
  subst hxs
  exact ⟨_, _, rfl, Lists.gains_alloc lists _⟩

/-- A function of one list that goes by its first element, where there is one. -/
theorem call?_first {name : String}
    (result : Lists → ListId → Value → List Value → Value × Lists)
    (hname : standard.find? name = some (Builtin.pure name fun args lists => do
      let a ← Builtin.listArgument name (← Builtin.oneArgument args)
      match lists.elements a with
      | [] => throw (.emptyList name)
      | v :: vs => return result lists a v vs))
    (hxs : lists.elements a = x :: xs) :
    standard.call? name sink [.list a] ⟨scopes, lists, console⟩ =
      some (.ok (result lists a x xs).1, ⟨scopes, (result lists a x xs).2, console⟩) := by
  unfold call?
  rw [hname, Option.bind_some]
  apply Builtin.pure_action
  show (match lists.elements a with
    | [] => throw (Fault.emptyList name)
    | v :: vs => return result lists a v vs) = Except.ok (result lists a x xs)
  rw [hxs]
  rfl

theorem call?_head (hxs : lists.elements a = x :: xs) :
    standard.call? "head" sink [.list a] ⟨scopes, lists, console⟩ =
      some (.ok x, ⟨scopes, lists, console⟩) :=
  call?_first (fun lists _ v _ => (v, lists)) rfl hxs

theorem call?_tail (hxs : lists.elements a = x :: xs) :
    ∃ b after, standard.call? "tail" sink [.list a] ⟨scopes, lists, console⟩ =
      some (.ok (.list b), ⟨scopes, after, console⟩) ∧ lists.Gains after b xs :=
  ⟨_, _, call?_first (fun lists _ _ vs => (.list lists.size, lists.alloc vs)) rfl hxs,
    Lists.gains_alloc lists xs⟩

theorem call?_shift (hxs : lists.elements a = x :: xs) :
    ∃ after, standard.call? "shift" sink [.list a] ⟨scopes, lists, console⟩ =
      some (.ok x, ⟨scopes, after, console⟩) ∧ lists.Replaces after a xs := by
  have ha : a < lists.size := Lists.lt_size_of_mem (hxs ▸ List.mem_cons_self)
  exact ⟨_, call?_first (fun lists a v vs => (v, lists.update a vs)) rfl hxs,
    Lists.replaces_update ha⟩

theorem call?_pop (hxs : lists.elements a = xs ++ [x]) :
    ∃ after, standard.call? "pop" sink [.list a] ⟨scopes, lists, console⟩ =
      some (.ok x, ⟨scopes, after, console⟩) ∧ lists.Replaces after a xs := by
  have ha : a < lists.size := Lists.lt_size_of_mem (v := x) (by simp [hxs])
  refine ⟨lists.update a xs, ?_, Lists.replaces_update ha⟩
  show Builtin.pop.action sink [.list a] ⟨scopes, lists, console⟩ = _
  apply Builtin.pure_action (r := (x, lists.update a xs))
  unfold Builtin.oneArgument Builtin.listArgument
  dsimp only [bind, Except.bind]
  rw [hxs, List.getLast?_concat, List.dropLast_concat]
  rfl

theorem call?_len (hxs : lists.elements a = xs) :
    standard.call? "len" sink [.list a] ⟨scopes, lists, console⟩ =
      some (.ok (.int (Int64.ofNat xs.length)), ⟨scopes, lists, console⟩) := by
  subst hxs
  rfl

/-- A call that is refused leaves the lists as they are. Only printing can have printed before; any
other function refused for the reason that `refusal?` gives. -/
theorem call?_error {name : String} {args : List Value} {fault : Fault} {store after : Store}
    (h : standard.call? name sink args store = some (.error fault, after)) :
    after.scopes = store.scopes ∧ after.lists = store.lists ∧
      (name = "print" → ∃ reason, fault = .output reason) ∧
      (name ≠ "print" → after.console = store.console ∧
        Builtin.refusal? store.lists name args = some fault) := by
  obtain ⟨b, hb, hname, haction⟩ := call?_eq_some h
  subst hname
  rcases standard_refuses hb with rfl | ⟨hprint, hrefuses⟩
  · obtain ⟨hscopes, hlists, hreason⟩ := Builtin.print_refused haction
    exact ⟨hscopes, hlists, fun _ => hreason, fun hprint => absurd rfl hprint⟩
  · obtain ⟨result, after', haction', hrefused⟩ := hrefuses sink args store
    obtain ⟨rfl, rfl⟩ := Prod.mk.inj (Option.some.inj (haction.symm.trans haction'))
    obtain ⟨hrefusal, rfl⟩ := hrefused
    exact ⟨rfl, rfl, fun h => absurd h hprint, fun _ => ⟨rfl, hrefusal⟩⟩

theorem call?_of_refusal {name : String} {args : List Value} {fault : Fault} {store : Store}
    (hname : standard.has name = true) (hprint : name ≠ "print")
    (h : Builtin.refusal? store.lists name args = some fault) :
    standard.call? name sink args store = some (.error fault, store) := by
  obtain ⟨b, hfind⟩ := Option.isSome_iff_exists.1 hname
  have hb : b.name = name := by simpa using List.find?_some hfind
  rw [call?, hfind, Option.bind_some]
  rcases standard_refuses (List.mem_of_find?_eq_some hfind) with rfl | ⟨-, hrefuses⟩
  · exact absurd hb.symm hprint
  · obtain ⟨result, after, haction, hrefused⟩ := hrefuses sink args store
    rw [hb, h] at hrefused
    rw [haction]
    cases result with
    | ok v => cases hrefused.1
    | error fault' =>
      obtain ⟨hfault, rfl⟩ := hrefused
      rw [Option.some_inj.1 hfault]

end Builtins

/-- Lists are double-ended queues that are shared. `append`, `prepend` and `tail` make a list, at an
address of its own, and change none; `head` and `len` look at a list, and `pop` and `shift` take an
element off the one that they are given and change no other. So what was put at an end is what comes
off there, and leaves what was there before. A call that is refused changes no list. Only `print` can
have printed by then, and is refused by the sink only; any other function refuses what `refusal?`
says, and nothing else. -/
theorem lists_serve_as_shared_deques (sink : Sink) (scopes : Scopes) (lists : Lists)
    (console : Console) (a : ListId) (ha : a < lists.size) (x : Value) :
    let xs := lists.elements a
    let call (name : String) (args : List Value) (lists : Lists) :=
      Builtins.standard.call? name sink args ⟨scopes, lists, console⟩
    (∃ b after, call "append" [.list a, x] lists = some (.ok (.list b), ⟨scopes, after, console⟩) ∧
      lists.Gains after b (xs ++ [x]) ∧
      ∃ after', call "pop" [.list b] after = some (.ok x, ⟨scopes, after', console⟩) ∧
        after.Replaces after' b xs ∧ after'.elements a = xs) ∧
    (∃ b after, call "prepend" [.list a, x] lists = some (.ok (.list b), ⟨scopes, after, console⟩) ∧
      lists.Gains after b (x :: xs) ∧
      call "head" [.list b] after = some (.ok x, ⟨scopes, after, console⟩) ∧
      ∃ c after', call "tail" [.list b] after = some (.ok (.list c), ⟨scopes, after', console⟩) ∧
        after.Gains after' c xs) ∧
    (∀ y ys, xs = y :: ys →
      call "head" [.list a] lists = some (.ok y, ⟨scopes, lists, console⟩) ∧
      (∃ b after, call "tail" [.list a] lists = some (.ok (.list b), ⟨scopes, after, console⟩) ∧
        lists.Gains after b ys) ∧
      ∃ after, call "shift" [.list a] lists = some (.ok y, ⟨scopes, after, console⟩) ∧
        lists.Replaces after a ys) ∧
    (∀ ys y, xs = ys ++ [y] →
      ∃ after, call "pop" [.list a] lists = some (.ok y, ⟨scopes, after, console⟩) ∧
        lists.Replaces after a ys) ∧
    (∃ n : Int64, call "len" [.list a] lists = some (.ok (.int n), ⟨scopes, lists, console⟩) ∧
      n = Int64.ofNat xs.length ∧
      (xs.length ≤ Int64.maxValue.toInt → n.toInt = xs.length)) ∧
    ∀ name args fault,
      (∀ after, call name args lists = some (.error fault, after) →
        after.scopes = scopes ∧ after.lists = lists ∧
          (name = "print" → ∃ reason, fault = .output reason) ∧
          (name ≠ "print" → after.console = console)) ∧
      (Builtins.standard.has name = true → name ≠ "print" →
        (call name args lists = some (.error fault, ⟨scopes, lists, console⟩) ↔
          Builtin.refusal? lists name args = some fault)) := by
  intro xs call
  refine ⟨?append, ?prepend, ?first, ?last, ?len, ?refused⟩
  case append =>
    obtain ⟨b, after, hcall, hgains⟩ := Builtins.call?_append (show lists.elements a = xs from rfl)
    obtain ⟨after', hpop, hreplaces⟩ := Builtins.call?_pop hgains.elements
    have hne : a ≠ b := Nat.ne_of_lt (Nat.lt_of_lt_of_le ha hgains.fresh)
    have hkept : after'.elements a = xs := (hreplaces.kept a hne).trans (hgains.kept a ha)
    exact ⟨b, after, hcall, hgains, after', hpop, hreplaces, hkept⟩
  case prepend =>
    obtain ⟨b, after, hcall, hgains⟩ := Builtins.call?_prepend (show lists.elements a = xs from rfl)
    have hhead : call "head" [.list b] after = some (.ok x, ⟨scopes, after, console⟩) :=
      Builtins.call?_head hgains.elements
    exact ⟨b, after, hcall, hgains, hhead, Builtins.call?_tail hgains.elements⟩
  case first =>
    intro y ys hxs
    exact ⟨Builtins.call?_head hxs, Builtins.call?_tail hxs, Builtins.call?_shift hxs⟩
  case last =>
    intro ys y hxs
    exact Builtins.call?_pop hxs
  case len =>
    refine ⟨Int64.ofNat xs.length, Builtins.call?_len rfl, rfl, fun hlength => ?_⟩
    rw [Int64.toInt_maxValue] at hlength
    exact Int64.toInt_ofNat_of_lt (by omega)
  case refused =>
    intro name args fault
    constructor
    · intro after hcall
      obtain ⟨hscopes, hlists, hreason, hother⟩ := Builtins.call?_error hcall
      exact ⟨hscopes, hlists, hreason, fun hprint => (hother hprint).1⟩
    · intro hname hprint
      constructor
      · intro hcall
        exact ((Builtins.call?_error hcall).2.2.2 hprint).2
      · intro hrefusal
        exact Builtins.call?_of_refusal hname hprint hrefusal

/-- A list that another one holds twice is shifted: both see it, and no copy is made. -/
theorem lists_serve_as_shared_deques_nested :
    let lists : Lists := ⟨#[[.int 1, .int 2], [.list 0, .list 0]]⟩
    ∃ after, Builtins.standard.call? "shift" .unlimited [.list 0] ⟨.empty, lists, .empty⟩ =
        some (.ok (.int 1), ⟨.empty, after, .empty⟩) ∧
      after.size = 2 ∧ after.elements 0 = [.int 2] ∧ after.elements 1 = [.list 0, .list 0] := by
  intro lists
  obtain ⟨-, -, hfirst, -⟩ :=
    lists_serve_as_shared_deques .unlimited .empty lists .empty 0 (by decide) .nil
  obtain ⟨-, -, after, hcall, hreplaces⟩ := hfirst (.int 1) [.int 2] rfl
  exact ⟨after, hcall, hreplaces.size, hreplaces.elements, hreplaces.kept 1 (by decide)⟩

end Scriptlet
