import Scriptlet.Proofs.Indifference

/-!
# Calls with a wrong number of arguments

The options say what becomes of such a call: it goes on with what there is, or it is nil. In either
case the mismatch is noted. So a run in which no mismatch is noted makes no such call, and is the
same under the other option. Built-in functions count their own arguments and do not look at the
options, but a mismatch that they note counts all the same.
-/

namespace Scriptlet

def Context.withArity (ctx : Context) (arity : Arity) : Context :=
  { ctx with options := { ctx.options with arity } }

/-- Faults that no call with a wrong number of arguments has left. -/
def NoMismatch (noted : Array Fault) : Prop :=
  ∀ expected got, .arity expected got ∉ noted

namespace Context

variable {ctx : Context} {c : Closure} {got : Nat} {fault fault' : Fault}

/-- A right number of arguments is refused under neither rule. -/
theorem refusal?_of_none (h : c.arityFault? got = none) : ctx.refusal? c got = none := by
  rw [refusal?, h]
  cases ctx.options.arity <;> rfl

/-- A call is refused with the fault that it notes otherwise. -/
theorem refusal?_of_some (h : c.arityFault? got = some fault)
    (hrefusal : ctx.refusal? c got = some fault') : fault = fault' := by
  rw [refusal?, h] at hrefusal
  split at hrefusal
  · exact Option.some.inj hrefusal
  · cases hrefusal

end Context

theorem noMismatch_append {noted later : Array Fault} :
    NoMismatch (noted ++ later) ↔ NoMismatch noted ∧ NoMismatch later := by
  simp only [NoMismatch, Array.mem_append, not_or, forall_and]

/-- If a step from a state ends, it has put faults behind those of the state; and unless one of them
is a mismatch, the other step ends in the same way. -/
def Matches {α : Type} (m : Machine) (o o' : Option (α × Machine)) : Prop :=
  ∀ r, o = some r → ∃ noted, r.2.faults = m.faults ++ noted ∧ (NoMismatch noted → o' = some r)

/-! ## One step after the other -/

section

variable {α β : Type} {m m₁ : Machine}

theorem matches_none {o' : Option (α × Machine)} : Matches m none o' := by
  intro r h
  cases h

/-- Steps that the options have no part in. -/
theorem matches_self {o o' : Option (α × Machine)} (h : Recurs m #[] o o') : Matches m o o := by
  intro r hr
  obtain ⟨-, -, noted, hnoted, -⟩ := h r hr
  exact ⟨noted, hnoted, fun _ => hr⟩

theorem matches_value (v : α) : Matches m (some (v, m)) (some (v, m)) :=
  matches_self (recurs_value v)

/-- A step behind one that has noted something. -/
theorem Matches.after {o o' : Option (α × Machine)} {noted : Array Fault}
    (hm : m₁.faults = m.faults ++ noted) (h : Matches m₁ o o') : Matches m o o' := by
  intro r hr
  obtain ⟨noted', hnoted', hsame⟩ := h r hr
  exact ⟨noted ++ noted', by rw [hnoted', hm, Array.append_assoc],
    fun hno => hsame (noMismatch_append.1 hno).2⟩

/-- Behind a mismatch it does not matter what the other step does. -/
theorem Matches.mismatch {o o' : Option (α × Machine)} {c : Closure} {got : Nat} {fault : Fault}
    (h : Matches m₁ o o) (hm : m₁.faults = m.faults.push fault)
    (hfault : c.arityFault? got = some fault) : Matches m o o' := by
  intro r hr
  obtain ⟨noted, hnoted, -⟩ := h r hr
  refine ⟨#[fault] ++ noted, ?_, fun hno => ?_⟩
  · rw [hnoted, hm, Array.push_eq_append, Array.append_assoc]
  · rw [Closure.arityFault?] at hfault
    split at hfault
    · cases hfault
    · cases hfault
      exact absurd (Array.mem_singleton.2 rfl)
        ((noMismatch_append.1 hno).1 c.params.length got)

theorem Matches.bind {o o' : Option (α × Machine)} {next next' : α × Machine → Option (β × Machine)}
    (ho : Matches m o o') (hnext : ∀ v m₁, Matches m₁ (next (v, m₁)) (next' (v, m₁))) :
    Matches m (o.bind next) (o'.bind next') := by
  intro r hr
  obtain ⟨⟨v, m₁⟩, rfl, hr⟩ := Option.bind_eq_some_iff.1 hr
  obtain ⟨noted, hnoted, hsame⟩ := ho _ rfl
  obtain ⟨noted', hnoted', hsame'⟩ := hnext v m₁ r hr
  refine ⟨noted ++ noted', by rw [hnoted', hnoted, Array.append_assoc], fun hno => ?_⟩
  obtain ⟨hfirst, hsecond⟩ := noMismatch_append.1 hno
  rw [hsame hfirst, Option.bind_some, hsame' hsecond]

end

/-! ## The evaluator -/

/-- A mismatch is noted whether the call is refused or not. Without one the rules do not differ. -/
theorem matches_func {ctx : Context} (arity arity' : Arity) (fuel : Nat) (c : Closure)
    (args : List Value) {m : Machine}
    (hbody : ∀ s m, Matches m (evalBlock (ctx.withArity arity) fuel .nil c.body s m)
      (evalBlock (ctx.withArity arity') fuel .nil c.body s m)) :
    Matches m (applyValue (ctx.withArity arity) (fuel + 1) (.func c) args m)
      (applyValue (ctx.withArity arity') (fuel + 1) (.func c) args m) := by
  rw [applyValue_func, applyValue_func]
  cases hfault : c.arityFault? args.length with
  | none =>
    have hquiet : (m.enter c args).2.faults = m.faults ++ #[] := by
      simp [Machine.enter, Machine.enclose, hfault]
    rw [Context.refusal?_of_none hfault, Context.refusal?_of_none hfault, Outcome.arrive_eq_bind,
      Outcome.arrive_eq_bind]
    exact ((hbody _ _).bind fun v m₁ => matches_value v.arrived).after hquiet
  | some fault =>
    cases hrefusal : (ctx.withArity arity).refusal? c args.length with
    | none =>
      -- the body ends as it ends, and the mismatch is among what was noted
      have hnoted : (m.enter c args).2.faults = m.faults.push fault := by
        simp [Machine.enter, Machine.enclose, Machine.note, hfault]
      have hrecurs := (recurrence (ctx.withArity arity) 0).rel_program fuel c.body
        (m.enter c args).1 (m.enter c args).2 ((m.enter c args).2.holding #[]) rfl
      exact (matches_self hrecurs).mismatch hnoted hfault
    | some fault' =>
      obtain rfl := Context.refusal?_of_some hfault hrefusal
      have hrefused := matches_value (m := m.note fault) Value.nil
      exact hrefused.mismatch rfl hfault

def Context.rules (ctx : Context) (arity arity' : Arity) :
    Lockstep (ctx.withArity arity) (ctx.withArity arity') 0 where
  state m m' := m' = m
  rel m _ _ o o' := Matches m o o'
  lists_eq hm := hm ▸ rfl
  exhausted := matches_none
  value hm _ v := hm ▸ matches_value v
  bind ho hnext := ho.bind fun v m₁ => hnext v m₁ m₁ rfl
  settle hm r := hm ▸ matches_self (recurs_settle r)
  resolve hm name s := hm ▸ matches_self (recurs_resolve (ctx.withArity arity) name s)
  newList hm _ := hm ▸ matches_self (recurs_some (repeats_quiet rfl))
  bindName hm _ _ _ := hm ▸ matches_self (recurs_some (repeats_quiet rfl))
  enterBranch hm code s := hm ▸ matches_self (recurs_some (repeats_enterBranch ctx code s))
  builtins_eq := rfl
  callBuiltin hm b args := hm ▸ matches_self (recurs_callBuiltin ctx.sink b args)
  callFunction hm fuel c args hbody := by
    rw [Nat.zero_add] at hbody ⊢
    exact hm ▸ matches_func arity arity' fuel c args fun s m₁ => hbody s m₁ m₁ rfl

/-- The rule for calls with a wrong number of arguments matters only to programs that make one. What
a program notes is put behind the faults from before, and if none of it is a mismatch, the program
ends under the other rule as well, with the same value and in the same state. -/
theorem arity_rule_immaterial (ctx : Context) (arity arity' : Arity) (m : Machine) (s : ScopeId)
    (fuel : Nat) (code : Code) (r : Value × Machine)
    (h : evalProgram (ctx.withArity arity) fuel code s m = some r) :
    ∃ noted, r.2.faults = m.faults ++ noted ∧
      (NoMismatch noted → evalProgram (ctx.withArity arity') fuel code s m = some r) := by
  have hrules := (ctx.rules arity arity').rel_program fuel code s m m rfl
  rw [Nat.zero_add] at hrules
  exact hrules r h

/-- Functions that call functions with as many arguments as they take, in a state in which a mismatch
was noted before. One of them reads a name that means nothing, which is noted under both rules. -/
theorem arity_rule_immaterial_of_closures :
    let ctx : Context := ⟨{}, .standard, .unlimited, Block.binds⟩
    let m := Machine.empty.newRoot.2.note (.arity 2 1)
    let code : Code := [
      .var "twice" (.func 0 ["f"] [.ret (.func 1 ["x"] [
        .expr (.call (.ident "f") [.call (.ident "f") [.ident "x"]])])]),
      .var "add" (.func 2 ["x"] [
        .expr (.call (.ident "print") [.ident "x", .ident "y"]),
        .expr (.infixOp .add (.ident "x") (.int 2))]),
      .expr (.call (.call (.ident "twice") [.ident "add"]) [.int 3])]
    ∃ r, evalProgram (ctx.withArity .lenient) 40 code 0 m = some r ∧
      evalProgram (ctx.withArity .strict) 40 code 0 m = some r ∧ r.1 = .int 7 ∧
      r.2.faults = m.faults ++ #[.unbound "y"] ∧ r.2.console.text = "3\nnil\n5\nnil\n" := by
  intro ctx m code
  have hrun : (evalProgram (ctx.withArity .lenient) 40 code 0 m).map
      (fun r => (r.1, r.2.faults.toList, r.2.console.text)) =
        some (.int 7, [.arity 2 1, .unbound "y"], "3\nnil\n5\nnil\n") := by
    decide +kernel
  obtain ⟨r, hr, hseen⟩ := Option.map_eq_some_iff.1 hrun
  simp only [Prod.mk.injEq] at hseen
  obtain ⟨hv, hfaults, htext⟩ := hseen
  obtain ⟨noted, hnoted, hsame⟩ := arity_rule_immaterial ctx .lenient .strict m 0 40 code r hr
  obtain rfl : noted = #[.unbound "y"] := by
    rw [hnoted, Array.toList_append] at hfaults
    exact Array.toList_inj.1 (List.cons.inj hfaults).2
  have hstrict := hsame fun expected got hmem => by simp at hmem
  exact ⟨r, hr, hstrict, hv, hnoted, htext⟩

end Scriptlet
