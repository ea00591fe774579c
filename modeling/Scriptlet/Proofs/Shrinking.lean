import Scriptlet.Proofs.Steps

/-!
# Lists shrink at their ends

A list that is there only ever loses elements, and only at its ends: one in front for every call of
`shift` on it that gives a value, and one behind for every such call of `pop`, whatever name or
element the list was reached by. All other steps leave the lists that are there as they are; some
make a new one.
-/

namespace Scriptlet

namespace Lists

variable {lists lists₁ lists₂ : Lists} {a : ListId} {shifted popped shifted' popped' : Nat}

/-- A list has lost some elements in front and some behind, and is the same in between. -/
def Shrinks (before after : Lists) (a : ListId) (shifted popped : Nat) : Prop :=
  ∃ front back, before.elements a = front ++ after.elements a ++ back ∧
    front.length = shifted ∧ back.length = popped

theorem Shrinks.of_eq (h : lists₁.elements a = lists.elements a) : lists.Shrinks lists₁ a 0 0 :=
  ⟨[], [], by rw [List.nil_append, List.append_nil, h], rfl, rfl⟩

theorem Shrinks.eq (h : lists.Shrinks lists₁ a 0 0) : lists₁.elements a = lists.elements a := by
  obtain ⟨front, back, hbefore, hfront, hback⟩ := h
  rw [hbefore, List.length_eq_zero_iff.1 hfront, List.length_eq_zero_iff.1 hback, List.nil_append,
    List.append_nil]

theorem Shrinks.trans (h : lists.Shrinks lists₁ a shifted popped)
    (h' : lists₁.Shrinks lists₂ a shifted' popped') :
    lists.Shrinks lists₂ a (shifted + shifted') (popped + popped') := by
  obtain ⟨front, back, hbefore, rfl, rfl⟩ := h
  obtain ⟨front', back', hbefore', rfl, rfl⟩ := h'
  refine ⟨front ++ front', back' ++ back, ?_, List.length_append, ?_⟩
  · rw [hbefore, hbefore']
    simp only [List.append_assoc]
  · rw [List.length_append, Nat.add_comm]

theorem shrinks_update {b : ListId} {front vs back : List Value}
    (helements : lists.elements b = front ++ vs ++ back) (ha : a < lists.size) :
    lists.Shrinks (lists.update b vs) a (if b = a then front.length else 0)
      (if b = a then back.length else 0) := by
  by_cases hb : b = a
  · subst hb
    rw [if_pos rfl, if_pos rfl]
    exact ⟨front, back, by rw [helements, elements_update_self ha], rfl, rfl⟩
  · rw [if_neg hb, if_neg hb]
    exact .of_eq (elements_update_of_ne hb)

end Lists

/-! ## Built-in functions -/

/-- What a built-in function of a name makes of the lists that are there, if it gives a value. -/
inductive Builtin.Alters (name : String) (args : List Value) (lists : Lists) : Lists → Prop
  | keeps (hshift : name ≠ "shift") (hpop : name ≠ "pop") : Alters name args lists lists
  | adds (hshift : name ≠ "shift") (hpop : name ≠ "pop") (elements : List Value) :
    Alters name args lists (lists.alloc elements)
  | shifts {a : ListId} {v : Value} {vs : List Value} (hname : name = "shift")
    (hargs : args = [.list a]) (helements : lists.elements a = v :: vs) :
    Alters name args lists (lists.update a vs)
  | pops {a : ListId} {v : Value} {vs : List Value} (hname : name = "pop")
    (hargs : args = [.list a]) (helements : lists.elements a = vs ++ [v]) :
    Alters name args lists (lists.update a vs)

namespace Builtin

/-- A built-in function that fails leaves the lists as they are. If it gives a value, only `shift`
and `pop` change a list that is there. -/
def Spares (b : Builtin) : Prop :=
  ∀ sink args store result after, b.action sink args store = some (result, after) →
    match result with
    | .ok _ => Alters b.name args store.lists after.lists
    | .error _ => after.lists = store.lists

section

variable {α β : Type} {name : String} {args : List Value} {lists after : Lists} {a : ListId}

theorem Alters.size_le (h : Alters name args lists after) : lists.size ≤ after.size := by
  cases h with
  | keeps => exact Nat.le_refl _
  | adds => simp
  | shifts => simp
  | pops => simp

/-- Shifting and popping are about the one list that is the argument. -/
theorem Alters.shrinks (h : Alters name args lists after) (ha : a < lists.size) :
    lists.Shrinks after a (decide (name = "shift" ∧ args = [.list a])).toNat
      (decide (name = "pop" ∧ args = [.list a])).toNat := by
  cases h with
  | keeps hshift hpop => simpa [hshift, hpop] using Lists.Shrinks.of_eq rfl
  | adds hshift hpop elements =>
    simpa [hshift, hpop] using Lists.Shrinks.of_eq (Lists.elements_alloc_of_lt ha)
  | @shifts b v vs hname hargs helements =>
    have h := Lists.shrinks_update (show lists.elements b = [v] ++ vs ++ [] by simpa) ha
    by_cases hb : b = a <;> simpa [hname, hargs, hb] using h
  | @pops b v vs hname hargs helements =>
    have h := Lists.shrinks_update (show lists.elements b = [] ++ vs ++ [v] by simpa) ha
    by_cases hb : b = a <;> simpa [hname, hargs, hb] using h

theorem spares_pure {f : List Value → Lists → Except Fault (Value × Lists)}
    (h : ∀ args lists, Answers (f args lists) (fun r => Alters name args lists r.2) fun _ => True) :
    (Builtin.pure name f).Spares := by
  intro sink args store result after haction
  have hf := h args store.lists
  simp only [Builtin.pure, onLists] at haction
  cases hr : f args store.lists with
  | ok r =>
    rw [hr] at hf haction
    cases haction
    exact hf
  | error fault =>
    rw [hr] at haction
    cases haction
    rfl

theorem answers_of_ok {x : Except Fault α} {next : α → Except Fault β} {P : β → Prop}
    (h : ∀ v, x = .ok v → Answers (next v) P fun _ => True) :
    Answers (x >>= next) P fun _ => True := by
  cases x with
  | ok v => exact h v rfl
  | error fault => trivial

theorem eq_of_oneArgument {v : Value} (h : oneArgument args = .ok v) : args = [v] := by
  rcases args with _ | ⟨w, _ | _⟩
  · cases h
  · cases h
    rfl
  · cases h

theorem eq_of_listArgument {v : Value} (h : listArgument name v = .ok a) : v = .list a := by
  cases v with
  | list b =>
    cases h
    rfl
  | _ => cases h

end

theorem print_spares : print.Spares := by
  intro sink args store result after haction
  simp only [print, onLists, Option.map_map, Option.map_eq_some_iff] at haction
  obtain ⟨⟨_ | reason, console⟩, -, haction⟩ := haction <;> cases haction
  · exact .keeps (by decide) (by decide)
  · rfl

theorem len_spares : len.Spares :=
  spares_pure fun args lists => answers_of_ok fun v _ => by
    split
    · exact .keeps (by decide) (by decide)
    · exact .keeps (by decide) (by decide)
    · trivial

theorem head_spares : head.Spares :=
  spares_pure fun args lists => answers_of_ok fun v _ => answers_of_ok fun a _ => by
    split
    · trivial
    · exact .keeps (by decide) (by decide)

theorem tail_spares : tail.Spares :=
  spares_pure fun args lists => answers_of_ok fun v _ => answers_of_ok fun a _ => by
    split
    · trivial
    · exact .adds (by decide) (by decide) _

theorem append_spares : append.Spares :=
  spares_pure fun args lists => answers_of_ok fun _ _ => answers_of_ok fun a _ =>
    .adds (by decide) (by decide) _

theorem prepend_spares : prepend.Spares :=
  spares_pure fun args lists => answers_of_ok fun _ _ => answers_of_ok fun a _ =>
    .adds (by decide) (by decide) _

theorem pop_spares : pop.Spares :=
  spares_pure fun args lists => answers_of_ok fun v hv => answers_of_ok fun a ha => by
    obtain rfl := eq_of_listArgument ha
    split
    · trivial
    next w hw =>
      obtain ⟨vs, hvs⟩ := List.getLast?_eq_some_iff.1 hw
      refine .pops rfl (eq_of_oneArgument hv) (v := w) ?_
      rw [hvs, List.dropLast_concat]

theorem shift_spares : shift.Spares :=
  spares_pure fun args lists => answers_of_ok fun v hv => answers_of_ok fun a ha => by
    obtain rfl := eq_of_listArgument ha
    split
    · trivial
    next hvs => exact .shifts rfl (eq_of_oneArgument hv) hvs

theorem type_spares : type.Spares :=
  spares_pure fun args lists => answers_of_ok fun v _ => .keeps (by decide) (by decide)

end Builtin

/-- Of the standard functions only two change a list that is there. -/
theorem Builtins.standard_spares {b : Builtin} (hb : b ∈ standard.table) : b.Spares := by
  simp only [standard, List.mem_cons, List.not_mem_nil, or_false] at hb
  rcases hb with rfl | rfl | rfl | rfl | rfl | rfl | rfl | rfl | rfl
  · exact Builtin.print_spares
  · exact Builtin.len_spares
  · exact Builtin.head_spares
  · exact Builtin.tail_spares
  · exact Builtin.append_spares
  · exact Builtin.prepend_spares
  · exact Builtin.pop_spares
  · exact Builtin.shift_spares
  · exact Builtin.type_spares

/-! ## Steps and runs -/

/-- Whether a step is a call of the function of a name on one list that gives a value. -/
def Step.succeeds (name : String) (a : ListId) (m : Machine) : Step → Bool
  | call sink b args =>
    decide (b.name = name ∧ args = [.list a]) && (b.action sink args m.store).any (·.1.isOk)
  | _ => false

def successes (name : String) (a : ListId) : Machine → List Step → Nat
  | _, [] => 0
  | m, step :: steps => (step.succeeds name a m).toNat + successes name a (step.apply m) steps

section

variable {m : Machine} {a : ListId}

/-- A call takes what it succeeds in taking off a list, and nothing else. -/
theorem Builtin.Spares.shrinks {b : Builtin} (hb : b.Spares) (sink : Sink) (args : List Value)
    (ha : a < m.lists.size) :
    m.lists.size ≤ ((Step.call sink b args).apply m).lists.size ∧
      m.lists.Shrinks ((Step.call sink b args).apply m).lists a
        ((Step.call sink b args).succeeds "shift" a m).toNat
        ((Step.call sink b args).succeeds "pop" a m).toNat := by
  simp only [Step.apply, Step.succeeds, Machine.callBuiltin]
  cases haction : b.action sink args m.store with
  | none => exact ⟨Nat.le_refl _, by simpa using Lists.Shrinks.of_eq rfl⟩
  | some r =>
    obtain ⟨result, store⟩ := r
    have hspares := hb sink args m.store result store haction
    cases result with
    | error fault =>
      have hlists : store.lists = m.lists := hspares
      simp only [Option.map_some, Machine.settle, Machine.note, Machine.withStore, hlists]
      exact ⟨Nat.le_refl _, by simpa [Except.isOk, Except.toBool] using Lists.Shrinks.of_eq rfl⟩
    | ok v =>
      have hshrinks : m.lists.Shrinks store.lists a _ _ := hspares.shrinks ha
      refine ⟨hspares.size_le, ?_⟩
      simpa [Except.isOk, Except.toBool, Machine.settle, Machine.withStore] using hshrinks

/-- One step takes off a list that is there what it succeeds in taking off it. -/
theorem Step.shrinks {step : Step} (hfrom : step.From .standard) (ha : a < m.lists.size) :
    m.lists.size ≤ (step.apply m).lists.size ∧
      m.lists.Shrinks (step.apply m).lists a (step.succeeds "shift" a m).toNat
        (step.succeeds "pop" a m).toNat := by
  cases step with
  | note fault => exact ⟨Nat.le_refl _, .of_eq rfl⟩
  | bind s name v => exact ⟨Nat.le_refl _, .of_eq rfl⟩
  | enclose outer bindings => exact ⟨Nat.le_refl _, .of_eq rfl⟩
  | newList elements =>
    refine ⟨?_, .of_eq (Lists.elements_alloc_of_lt ha)⟩
    simp [Step.apply, Machine.newList]
  | call sink b args => exact (Builtins.standard_spares hfrom).shrinks sink args ha

/-- Steps take off a list that is there what they succeed in taking off it, one after the other. -/
theorem Machine.after_shrinks {steps : List Step} (hfrom : ∀ step ∈ steps, step.From .standard)
    (ha : a < m.lists.size) :
    m.lists.Shrinks (m.after steps).lists a (successes "shift" a m steps)
      (successes "pop" a m steps) := by
  induction steps generalizing m with
  | nil => exact .of_eq rfl
  | cons step steps ih =>
    obtain ⟨hstep, hsteps⟩ := List.forall_mem_cons.1 hfrom
    obtain ⟨hsize, hshrinks⟩ := Step.shrinks hstep ha
    exact hshrinks.trans (ih hsteps (Nat.lt_of_lt_of_le ha hsize))

end

/-- Lists only shrink, and only at their ends. Programs that are evaluated one after the other, with
any options, take their steps one after the other, to the state that the last of them ends in, and
with more fuel they only go on behind them. Between any two moments a list that is there at the first
loses in front as many elements as calls of `shift` on it gave a value, and behind as many as calls of
`pop` on it did. A step that is no such call leaves it as it is. -/
theorem lists_shrink_at_ends (jobs : List Job)
    (hb : ∀ job ∈ jobs, job.context.builtins = .standard) (m : Machine) :
    (∀ vs m', Job.runAll jobs m = some (vs, m') → m.after (Job.stepsAll jobs m) = m') ∧
    (∀ extra, Job.stepsAll jobs m <+: Job.stepsAll (jobs.map (Job.fueled extra)) m) ∧
    (∀ before between rest, Job.stepsAll jobs m = before ++ between ++ rest →
      ∀ a < (m.after before).lists.size, ∃ front back,
        (m.after before).lists.elements a =
          front ++ (m.after (before ++ between)).lists.elements a ++ back ∧
        front.length = successes "shift" a (m.after before) between ∧
        back.length = successes "pop" a (m.after before) between) ∧
    ∀ before step rest, Job.stepsAll jobs m = before ++ step :: rest →
      ∀ a < (m.after before).lists.size, step.succeeds "shift" a (m.after before) = false →
        step.succeeds "pop" a (m.after before) = false →
          (m.after (before ++ [step])).lists.elements a = (m.after before).lists.elements a := by
  have htakes (extra : Nat) := Job.runAll_takes extra hb m
  refine ⟨?ends, fun extra => (htakes extra).begins, ?moments, ?other⟩
  case ends =>
    intro vs m' hrun
    exact (htakes 0).leads _ hrun
  case moments =>
    intro before between rest hsteps a ha
    rw [Machine.after_append]
    refine Machine.after_shrinks (fun step hstep => (htakes 0).from_table step ?_) ha
    rw [hsteps]
    exact List.mem_append_left _ (List.mem_append_right _ hstep)
  case other =>
    intro before step rest hsteps a ha hshift hpop
    have hfrom := (htakes 0).from_table step (by simp [hsteps])
    have hshrinks := (Step.shrinks hfrom ha).2
    rw [hshift, hpop] at hshrinks
    rw [Machine.after_append]
    exact hshrinks.eq

/-- A queue is drained by two programs, under three names: its own, another one, and as the element
of a list. Between the moment when all names are there and the end two elements were shifted off it
and one was popped; shifting an empty list does not count. -/
theorem lists_shrink_at_ends_of_aliases :
    let ctx : Context := ⟨{}, .standard, .unlimited, Block.binds⟩
    let m := Machine.empty.newRoot.2
    let jobs : List Job := [
      ⟨ctx, 20, [
        .var "queue" (.list [.int 1, .int 2, .int 3, .int 4]),
        .var "alias" (.ident "queue"),
        .var "box" (.list [.ident "queue"]),
        .expr (.call (.ident "shift") [.ident "alias"])], 0⟩,
      ⟨{ ctx with options := ⟨.strict, .nil⟩ }, 20, [
        .expr (.call (.ident "pop") [.index (.ident "box") (.int 0)]),
        .expr (.call (.ident "shift") [.list []]),
        .expr (.call (.ident "shift") [.ident "queue"])], 0⟩]
    let before := (Job.stepsAll jobs m).take 5
    ∃ vs m', Job.runAll jobs m = some (vs, m') ∧ m'.lists.elements 0 = [.int 3] ∧
      (m.after before).lists.elements 0 = [.int 1, .int 2, .int 3, .int 4] ∧
      ∃ front back, (m.after before).lists.elements 0 = front ++ m'.lists.elements 0 ++ back ∧
        front.length = 2 ∧ back.length = 1 := by
  intro ctx m jobs before
  have hb : ∀ job ∈ jobs, job.context.builtins = .standard := by
    simp [jobs, ctx]
  obtain ⟨hends, -, hmoments, -⟩ := lists_shrink_at_ends jobs hb m
  have hrun : (Job.runAll jobs m).map (·.2.lists.elements 0) = some [.int 3] := by
    decide +kernel
  obtain ⟨⟨vs, m'⟩, hr, hleft⟩ := Option.map_eq_some_iff.1 hrun
  let between := (Job.stepsAll jobs m).drop 5
  have hsteps : before ++ between = Job.stepsAll jobs m := List.take_append_drop ..
  obtain ⟨front, back, hsegment, hfront, hback⟩ :=
    hmoments before between [] (by rw [hsteps, List.append_nil]) 0 (by decide +kernel)
  rw [hsteps, hends vs m' hr] at hsegment
  have hfull : (m.after before).lists.elements 0 = [.int 1, .int 2, .int 3, .int 4] := by
    decide +kernel
  have hshifted : successes "shift" 0 (m.after before) between = 2 := by
    decide +kernel
  have hpopped : successes "pop" 0 (m.after before) between = 1 := by
    decide +kernel
  exact ⟨vs, m', hr, hleft, hfull, front, back, hsegment, hfront.trans hshifted,
    hback.trans hpopped⟩

end Scriptlet
