import Scriptlet.Proofs.Lockstep

/-!
# What evaluation does not look at

Two things go into a run that do not decide what it does: fuel that is left over in the end, and
the faults that were noted before. A run that ends does the same with more fuel and behind other
faults, and what it notes it puts behind the faults that it started with. Both are shown at once, of
a run and another one in lockstep with it.
-/

namespace Scriptlet

def Machine.holding (m : Machine) (held : Array Fault) : Machine :=
  { m with faults := held }

/-- A result of a step from a state, and a result of a step from that state with the faults `held`
in it. They are the same, and what the steps note they put behind the faults from before. -/
def Repeats {α : Type} (m : Machine) (held : Array Fault) (r r' : α × Machine) : Prop :=
  ∃ noted, r.2.faults = m.faults ++ noted ∧ r' = (r.1, r.2.holding (held ++ noted))

/-- If a step from a state ends, then a step from that state with the faults `held` in it ends in
the same way. -/
def Recurs {α : Type} (m : Machine) (held : Array Fault) (o o' : Option (α × Machine)) : Prop :=
  ∀ r, o = some r → ∃ r', o' = some r' ∧ Repeats m held r r'

/-! ## One step after the other -/

section

variable {α β : Type} {m : Machine} {held : Array Fault}

/-- A step that notes nothing. -/
theorem repeats_quiet {r : α × Machine} (h : r.2.faults = m.faults) :
    Repeats m held r (r.1, r.2.holding held) :=
  ⟨#[], by rw [h, Array.append_empty], by rw [Array.append_empty]⟩

/-- A step that notes one fault. -/
theorem repeats_note {r : α × Machine} {fault : Fault} (h : r.2.faults = m.faults.push fault) :
    Repeats m held r (r.1, r.2.holding (held.push fault)) :=
  ⟨#[fault], by rw [h, Array.push_eq_append], by rw [Array.push_eq_append]⟩

theorem Repeats.trans {m₁ : Machine} {noted : Array Fault} {r r' : α × Machine}
    (hm : m₁.faults = m.faults ++ noted) (h : Repeats m₁ (held ++ noted) r r') :
    Repeats m held r r' := by
  obtain ⟨noted', hnoted, rfl⟩ := h
  exact ⟨noted ++ noted', by rw [hnoted, hm, Array.append_assoc], by rw [Array.append_assoc]⟩

theorem recurs_none {o' : Option (α × Machine)} : Recurs m held none o' := by
  intro r h
  cases h

theorem recurs_some {r r' : α × Machine} (h : Repeats m held r r') :
    Recurs m held (some r) (some r') := by
  intro s hs
  cases hs
  exact ⟨r', rfl, h⟩

theorem recurs_value (v : α) : Recurs m held (some (v, m)) (some (v, m.holding held)) :=
  recurs_some (repeats_quiet rfl)

theorem Recurs.bind {o o' : Option (α × Machine)} {next next' : α × Machine → Option (β × Machine)}
    (ho : Recurs m held o o')
    (hnext : ∀ v m₁ held₁, Recurs m₁ held₁ (next (v, m₁)) (next' (v, m₁.holding held₁))) :
    Recurs m held (o.bind next) (o'.bind next') := by
  intro r hr
  obtain ⟨⟨v, m₁⟩, rfl, hr⟩ := Option.bind_eq_some_iff.1 hr
  obtain ⟨_, rfl, noted, hnoted, rfl⟩ := ho _ rfl
  obtain ⟨r', hr', hrepeats⟩ := hnext v m₁ (held ++ noted) r hr
  exact ⟨r', hr', hrepeats.trans hnoted⟩

end

/-! ## What a step does to a state -/

section

variable {m : Machine} {held : Array Fault}

theorem recurs_settle (r : Except Fault Value) :
    Recurs m held (some (m.settle r)) (some ((m.holding held).settle r)) := by
  cases r with
  | ok v => exact recurs_value v
  | error fault => exact recurs_some (repeats_note (r := (Value.nil, m.note fault)) rfl)

theorem recurs_resolve (ctx : Context) (name : String) (s : ScopeId) :
    Recurs m held (some (ctx.resolve name s m)) (some (ctx.resolve name s (m.holding held))) := by
  by_cases hb : ctx.builtins.has name = true
  · rw [Context.resolve_of_builtin hb, Context.resolve_of_builtin hb]
    exact recurs_value _
  cases hv : m.scopes.get? s name with
  | some v =>
    rw [Context.resolve_of_get? hb hv, Context.resolve_of_get? (m := m.holding held) hb hv]
    exact recurs_value v
  | none =>
    cases hunset : ctx.options.unsetNames with
    | vivify =>
      rw [Context.resolve_of_vivify hb hv hunset,
        Context.resolve_of_vivify (m := m.holding held) hb hv hunset]
      let after := (m.note (.unbound name)).bind (m.scopes.root s) name .nil
      exact recurs_some (repeats_note (r := (Value.nil, after)) rfl)
    | nil =>
      rw [Context.resolve_of_nil hb hv hunset,
        Context.resolve_of_nil (m := m.holding held) hb hv hunset]
      exact recurs_some (repeats_note (r := (Value.nil, m.note (.unbound name))) rfl)

theorem recurs_callBuiltin (sink : Sink) (b : Builtin) (args : List Value) :
    Recurs m held (m.callBuiltin sink b args) ((m.holding held).callBuiltin sink b args) := by
  have hstore : (m.holding held).store = m.store := rfl
  simp only [Machine.callBuiltin, hstore]
  cases b.action sink args m.store with
  | none => exact recurs_none
  | some r =>
    have h : Recurs (m.withStore r.2) held _ _ := recurs_settle r.1
    exact h

theorem repeats_enterBranch (ctx : Context) (code : Code) (s : ScopeId) :
    Repeats m held (ctx.enterBranch code s m) (ctx.enterBranch code s (m.holding held)) := by
  by_cases hown : ctx.ownScope code = true
  · rw [Context.enterBranch_of_own hown, Context.enterBranch_of_own hown]
    exact repeats_quiet (r := m.enclose s []) rfl
  · rw [Context.enterBranch_of_not_own hown, Context.enterBranch_of_not_own hown]
    exact repeats_quiet (r := (s, m)) rfl

theorem repeats_enter (c : Closure) (args : List Value) :
    Repeats m held (m.enter c args) ((m.holding held).enter c args) := by
  cases hfault : c.arityFault? args.length with
  | none =>
    simp only [Machine.enter, hfault]
    exact repeats_quiet (r := m.enclose c.scope _) rfl
  | some fault =>
    simp only [Machine.enter, hfault]
    exact repeats_note (r := (m.note fault).enclose c.scope _) rfl

/-- What goes on from a state that was entered. -/
theorem Repeats.enter {r r' : ScopeId × Machine} (hr : Repeats m held r r')
    {next next' : ScopeId → Machine → Outcome}
    (hnext : ∀ held₁, Recurs r.2 held₁ (next r.1 r.2) (next' r.1 (r.2.holding held₁))) :
    Recurs m held (next r.1 r.2) (next' r'.1 r'.2) := by
  obtain ⟨noted, hnoted, rfl⟩ := hr
  intro s hs
  obtain ⟨s', hs', hrepeats⟩ := hnext (held ++ noted) s hs
  exact ⟨s', hs', hrepeats.trans hnoted⟩

/-- A function starts in a scope of its own, or the call is refused. -/
theorem recurs_func (ctx : Context) (extra fuel : Nat) (c : Closure) (args : List Value)
    (hbody : ∀ s m held, Recurs m held (evalBlock ctx fuel .nil c.body s m)
      (evalBlock ctx (extra + fuel) .nil c.body s (m.holding held))) :
    Recurs m held (applyValue ctx (fuel + 1) (.func c) args m)
      (applyValue ctx (extra + fuel + 1) (.func c) args (m.holding held)) := by
  rw [applyValue_func, applyValue_func]
  split
  next fault _ => exact recurs_settle (.error fault)
  next =>
    rw [Outcome.arrive_eq_bind, Outcome.arrive_eq_bind]
    have hbody' : Recurs m held _ _ := (repeats_enter c args).enter fun held₁ => hbody _ _ held₁
    exact hbody'.bind fun v m₁ held₁ => recurs_value v.arrived

end

/-! ## The evaluator -/

def recurrence (ctx : Context) (extra : Nat) : Lockstep ctx ctx extra where
  state m m' := m' = m.holding m'.faults
  rel m m' _ o o' := Recurs m m'.faults o o'
  lists_eq hm := hm ▸ rfl
  exhausted := recurs_none
  value hm _ v := hm ▸ recurs_value v
  bind ho hnext := ho.bind fun v m₁ held₁ => hnext v m₁ (m₁.holding held₁) rfl
  settle hm r := hm ▸ recurs_settle r
  resolve hm name s := hm ▸ recurs_resolve ctx name s
  newList hm _ := hm ▸ recurs_some (repeats_quiet rfl)
  bindName hm _ _ _ := hm ▸ recurs_some (repeats_quiet rfl)
  enterBranch hm code s := hm ▸ recurs_some (repeats_enterBranch ctx code s)
  builtins_eq := rfl
  callBuiltin hm b args := hm ▸ recurs_callBuiltin ctx.sink b args
  callFunction hm fuel c args hbody := hm ▸ recurs_func ctx _ fuel c args fun s m₁ held₁ =>
    hbody s m₁ (m₁.holding held₁) rfl

/-! ## Consequences -/

section

variable {ctx : Context}

/-- With the faults that were there before, the same step has the same result. -/
theorem Recurs.eq_some {α : Type} {m : Machine} {o o' : Option (α × Machine)} {r : α × Machine}
    (h : Recurs m m.faults o o') (ho : o = some r) : o' = some r := by
  obtain ⟨_, ho', noted, hnoted, rfl⟩ := h r ho
  rw [ho', ← hnoted]
  rfl

theorem evalExpr_of_le {fuel fuel' : Nat} (hfuel : fuel ≤ fuel') {e : Expr Nat} {s : ScopeId}
    {m : Machine} {r : Value × Machine} (h : evalExpr ctx fuel e s m = some r) :
    evalExpr ctx fuel' e s m = some r := by
  obtain ⟨extra, rfl⟩ := Nat.exists_eq_add_of_le' hfuel
  exact Recurs.eq_some ((recurrence ctx extra).rel_expr fuel e s m m rfl) h

theorem evalStmt_of_le {fuel fuel' : Nat} (hfuel : fuel ≤ fuel') {st : Stmt Nat} {s : ScopeId}
    {m : Machine} {r : Value × Machine} (h : evalStmt ctx fuel st s m = some r) :
    evalStmt ctx fuel' st s m = some r := by
  obtain ⟨extra, rfl⟩ := Nat.exists_eq_add_of_le' hfuel
  exact Recurs.eq_some ((recurrence ctx extra).rel_stmt fuel st s m m rfl) h

theorem evalBlock_of_le {fuel fuel' : Nat} (hfuel : fuel ≤ fuel') {last : Value} {code : Code}
    {s : ScopeId} {m : Machine} {r : Value × Machine}
    (h : evalBlock ctx fuel last code s m = some r) :
    evalBlock ctx fuel' last code s m = some r := by
  obtain ⟨extra, rfl⟩ := Nat.exists_eq_add_of_le' hfuel
  exact Recurs.eq_some ((recurrence ctx extra).rel_block fuel last code s m m rfl) h

theorem evalProgram_recurs (fuel : Nat) (code : Code) (s : ScopeId) (m : Machine)
    (held : Array Fault) :
    Recurs m held (evalProgram ctx fuel code s m)
      (evalProgram ctx fuel code s (m.holding held)) := by
  have h := (recurrence ctx 0).rel_program fuel code s m (m.holding held) rfl
  rwa [Nat.zero_add] at h

/-- A program runs behind faults that were noted before as it runs behind none. -/
theorem evalProgram_holding (fuel : Nat) (code : Code) (s : ScopeId) (m : Machine)
    (held : Array Fault) :
    evalProgram ctx fuel code s (m.holding held) =
      (evalProgram ctx fuel code s (m.holding #[])).map fun r =>
        (r.1, r.2.holding (held ++ r.2.faults)) := by
  cases hrun : evalProgram ctx fuel code s (m.holding #[]) with
  | some r =>
    obtain ⟨_, hrun', noted, hnoted, rfl⟩ :=
      evalProgram_recurs fuel code s (m.holding #[]) held r hrun
    have hfaults : r.2.faults = noted := hnoted.trans (Array.empty_append)
    rw [Option.map_some, hfaults]
    exact hrun'
  | none =>
    cases hrun' : evalProgram ctx fuel code s (m.holding held) with
    | none => rfl
    | some r =>
      obtain ⟨r', hr', -⟩ := evalProgram_recurs fuel code s (m.holding held) #[] r hrun'
      cases hrun.symm.trans hr'

end

end Scriptlet
