import Scriptlet.Proofs.Upkeep

/-!
# Values on their way out

A `return` marks a value as `returned` until the function or the program that it leaves has ended.
The mark is never doubled, and nothing that lasts carries it: no binding, no list, no fault, no
argument, and no value of a call or of a program. Built-in functions hand out what they find in
lists, so this needs all of the state at once.
-/

namespace Scriptlet

/-- No scope and no list holds a value that is on its way out. -/
structure Machine.Settled (m : Machine) : Prop where
  bound : ∀ s name v, m.scopes.own? s name = some v → v.isReturned = false
  listed : ∀ a, ∀ v ∈ m.lists.elements a, v.isReturned = false

structure Machine.Clean (m : Machine) : Prop extends m.Settled where
  noted : ∀ fault ∈ m.faults, ∀ v ∈ fault.values, v.isReturned = false

def Invariant.settled : Invariant where
  value _ _ v := v.isReturned = false
  fault _ _ fault := ∀ v ∈ fault.values, v.isReturned = false
  outer _ _ := True
  value_mono _ _ h := h
  fault_mono _ _ h := h
  atom {_ _ v} h := by cases v <;> simp_all [Value.isAtom, Value.isReturned]
  list _ _ := rfl
  func _ := rfl
  arrived {_ _ v} h := by cases v <;> simp_all [Value.isReturned, Value.arrived]
  fault_of_values h := h
  outer_of_lt _ := trivial
  outer_of_func _ := trivial

namespace Machine

variable {m : Machine}

theorem settled_iff : m.Settled ↔ m.Obeys Invariant.settled.lenient :=
  ⟨fun h => ⟨h.bound, fun _ _ _ => trivial, ⟨Nat.zero_le _, h.listed⟩, fun _ _ => trivial⟩,
    fun h => ⟨h.bound, h.listed.element⟩⟩

theorem clean_iff : m.Clean ↔ m.Obeys Invariant.settled :=
  ⟨fun h => ⟨h.bound, fun _ _ _ => trivial, ⟨Nat.zero_le _, h.listed⟩, h.noted⟩,
    fun h => ⟨⟨h.bound, h.listed.element⟩, h.noted⟩⟩

theorem Reaches.clean {v : Value} {m' : Machine} (h : m.Reaches Invariant.settled v m') :
    v.isReturned = false ∧ m'.Clean :=
  ⟨h.admits, clean_iff.2 h.obeys⟩

end Machine

/-- Whatever runs in a clean state leaves a clean one, with a value that has arrived. Inside of a
block the value may be on its way out, but what it will arrive as is not again. -/
theorem returned_never_escapes (options : Options) (sink : Sink) {m : Machine} (hm : m.Clean)
    (fuel : Nat) :
    let ctx : Context := { options, builtins := .standard, sink }
    (∀ code, ∀ s < m.scopes.size,
      (evalProgram ctx fuel code s m).Yields fun v m' => v.isReturned = false ∧ m'.Clean) ∧
    (∀ f args, f.isReturned = false → (∀ v ∈ args, v.isReturned = false) →
      (applyValue ctx fuel f args m).Yields fun v m' => v.isReturned = false ∧ m'.Clean) ∧
    (∀ b ∈ Builtins.standard.table, ∀ args, (∀ v ∈ args, v.isReturned = false) →
      Outcome.Yields (m.callBuiltin sink b args) fun v m' => v.isReturned = false ∧ m'.Clean) ∧
    (∀ code last, last.isReturned = false → ∀ s < m.scopes.size,
      (evalBlock ctx fuel last code s m).Yields fun v m' =>
        v.arrived.isReturned = false ∧ m'.Clean) ∧
    (∀ e, ∀ s < m.scopes.size, (evalExpr ctx fuel e s m).Yields fun v m' =>
      v.arrived.isReturned = false ∧ m'.Clean) ∧
    ∀ es, ∀ s < m.scopes.size, ∀ args m', evalExprs ctx fuel es s m = some (.ok args, m') →
      (∀ v ∈ args, v.isReturned = false) ∧ m'.Clean := by
  intro ctx
  have hb : ctx.builtins.Respect Invariant.settled := Builtins.standard_respect _
  have hobeys := Machine.clean_iff.1 hm
  refine ⟨fun code s hs => ?_, fun f args hf hargs => ?_, fun b hmem args hargs => ?_,
    fun code last hlast s hs => ?_, fun e s hs => ?_, fun es s hs args m' h => ?_⟩
  · exact (evalProgram_reaches hb hobeys hs fuel code).mono fun _ _ h => h.clean
  · exact (applyValue_reaches hb fuel f args m hobeys hf hargs).mono fun _ _ h => h.clean
  · exact (hobeys.callBuiltin (hb b hmem) sink hargs).mono fun _ _ h => h.clean
  · exact (evalBlock_upholds hb fuel last code s m hobeys hs hlast).mono fun _ _ h => h.clean
  · exact (evalExpr_upholds hb fuel e s m hobeys hs).mono fun _ _ h => h.clean
  · obtain ⟨-, hobeys', hargs⟩ := evalExprs_upholds hb fuel es s m hobeys hs _ m' h
    exact ⟨hargs, Machine.clean_iff.2 hobeys'⟩

/-- A function that leaves in the middle of a list, with a value that `pop` takes out of another.
What it leaves with has arrived behind the call. -/
theorem returned_never_escapes_of_operand :
    let m : Machine := ⟨⟨#[⟨none, [("xs", .list 0)]⟩]⟩, ⟨#[[.nil, .str "a"]]⟩, .empty,
      #[.indexOperand (.list 0)]⟩
    let code : Code := [
      .var "f" (.func 0 ["x"] [.expr (.list [.int 1, .cond (.ident "x") [.ret (.ident "x")] none])]),
      .expr (.call (.ident "f") [.call (.ident "pop") [.ident "xs"]])]
    m.Clean ∧ ∃ m', evalProgram ⟨{}, .standard, .unlimited, Block.binds⟩ 20 code 0 m =
      some (.str "a", m') ∧ m'.lists.elements 0 = [.nil] ∧ m'.Clean := by
  intro m code
  have hm : m.Clean := by
    refine ⟨⟨fun s name v hv => ?_, fun a v hv => ?_⟩, fun fault hfault v hv => ?_⟩
    · rw [Scopes.eq_of_own?_singleton hv]
      rfl
    · cases a with
      | zero => exact (by decide : ∀ v ∈ [Value.nil, .str "a"], v.isReturned = false) v hv
      | succ => cases hv
    · obtain rfl := List.mem_singleton.1 (Array.mem_def.1 hfault)
      obtain rfl := List.mem_singleton.1 hv
      rfl
  let run := evalProgram ⟨{}, .standard, .unlimited, Block.binds⟩ 20 code 0 m
  have hrun : run.map (fun r => (r.1, r.2.lists.elements 0)) = some (.str "a", [.nil]) := by
    decide +kernel
  obtain ⟨⟨v, m'⟩, hv, hr⟩ := Option.map_eq_some_iff.1 hrun
  obtain ⟨rfl, hlist⟩ := Prod.mk.inj hr
  exact ⟨hm, m', hv, hlist, ((returned_never_escapes {} .unlimited hm 20).1 code 0 (by decide) _ m' hv).2⟩

end Scriptlet
