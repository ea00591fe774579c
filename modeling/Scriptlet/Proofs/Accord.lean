import Mathlib.Order.CompleteBooleanAlgebra
import Mathlib.Order.CompletePartialOrder
import Scriptlet.Proofs.Coupling

/-!
# Runs in accord

Two runs of a program that do the same in the same order: their values are the same, with the same
addresses of lists and the same numbers of scopes. An `Accord` says what their states may differ in
all the same: in what the scopes bind some names to, in the faults, and in what was printed. If no
step lets the states drift apart any further, then the runs end alike.
-/

namespace Scriptlet

/-- What the states of two runs have to agree in, besides their lists. -/
structure Accord where
  /-- Names that are bound alike. -/
  names : String → Prop
  faults : Array Fault → Array Fault → Prop
  console : Console → Console → Prop

/-- As many scopes, each in the same one, that bind some names to the same values. -/
structure Scopes.AgreeOn (names : String → Prop) (scopes scopes' : Scopes) : Prop where
  size_eq : scopes.size = scopes'.size
  outer?_eq : ∀ s, scopes.outer? s = scopes'.outer? s
  own?_eq : ∀ s name, names name → scopes.own? s name = scopes'.own? s name

/-- States that differ only in what an accord leaves open. -/
structure Machine.Agree (κ : Accord) (m m' : Machine) : Prop where
  scopes : m.scopes.AgreeOn κ.names m'.scopes
  lists_eq : m.lists = m'.lists
  faults : κ.faults m.faults m'.faults
  console : κ.console m.console m'.console

/-! ## Scopes -/

namespace Scopes.AgreeOn

variable {names : String → Prop} {scopes scopes' : Scopes} {name : String}

theorem refl (scopes : Scopes) : scopes.AgreeOn names scopes :=
  ⟨rfl, fun _ => rfl, fun _ _ _ => rfl⟩

theorem chain_eq (h : scopes.AgreeOn names scopes') (s : ScopeId) :
    scopes.chain s = scopes'.chain s :=
  chain_congr h.size_eq h.outer?_eq s

theorem root_eq (h : scopes.AgreeOn names scopes') (s : ScopeId) :
    scopes.root s = scopes'.root s := by
  rw [root, root, h.chain_eq]

theorem get?_eq (h : scopes.AgreeOn names scopes') (hname : names name) (s : ScopeId) :
    scopes.get? s name = scopes'.get? s name := by
  simp only [Scopes.get?, h.chain_eq, h.own?_eq _ name hname]

theorem set (h : scopes.AgreeOn names scopes') (s : ScopeId) (name : String) (v : Value) :
    (scopes.set s name v).AgreeOn names (scopes'.set s name v) where
  size_eq := by simpa using h.size_eq
  outer?_eq t := by simpa using h.outer?_eq t
  own?_eq t other hother := by rw [own?_set, own?_set, h.size_eq, h.own?_eq t other hother]

theorem setGlobal (h : scopes.AgreeOn names scopes') (s : ScopeId) (name : String) (v : Value) :
    (scopes.setGlobal s name v).AgreeOn names (scopes'.setGlobal s name v) := by
  rw [Scopes.setGlobal, Scopes.setGlobal, h.root_eq]
  exact h.set _ name v

theorem add (h : scopes.AgreeOn names scopes') (o : Option ScopeId) {bindings bindings' : Bindings}
    (hbindings : ∀ name, names name → bindings.lookup name = bindings'.lookup name) :
    (scopes.add ⟨o, bindings⟩).AgreeOn names (scopes'.add ⟨o, bindings'⟩) where
  size_eq := by simpa using h.size_eq
  outer?_eq t := by rw [outer?_add, outer?_add, h.size_eq, h.outer?_eq]
  own?_eq t name hname := by
    rw [own?_add, own?_add, h.size_eq, h.own?_eq t name hname, hbindings name hname]

end Scopes.AgreeOn

/-! ## Values that are alike in the same scopes -/

theorem Value.alike_eq_iff {v w : Value} : v.Alike (· = ·) w ↔ v = w := by
  constructor
  · intro h
    induction h with
    | atom => rfl
    | list => rfl
    | func hs => rw [hs]
    | returned _ ih => rw [ih]
  · rintro rfl
    exact .refl (fun _ => rfl) v

theorem Value.alike_eq : Value.Alike (· = ·) = (· = ·) := by
  funext v w
  exact propext alike_eq_iff

theorem Fault.eq_of_alike {fault fault' : Fault} (h : fault.Alike (· = ·) fault') :
    fault = fault' := by
  cases h with
  | plain => rfl
  | infixOperands op hl hr => rw [Value.alike_eq_iff.1 hl, Value.alike_eq_iff.1 hr]
  | prefixOperand _ h => rw [Value.alike_eq_iff.1 h]
  | notAFunction h => rw [Value.alike_eq_iff.1 h]
  | argument _ h => rw [Value.alike_eq_iff.1 h]
  | indexTarget h => rw [Value.alike_eq_iff.1 h]
  | indexOperand h => rw [Value.alike_eq_iff.1 h]
  | indexRange h _ => rw [Value.alike_eq_iff.1 h]

theorem Bindings.lookup_eq_of_alike {bindings bindings' : Bindings}
    (h : bindings.Alike (· = ·) bindings') (name : String) :
    bindings.lookup name = bindings'.lookup name := by
  have hname := h name
  rw [Value.alike_eq] at hname
  generalize bindings.lookup name = o, bindings'.lookup name = o' at hname ⊢
  cases hname with
  | none => rfl
  | some hv => rw [hv]

/-! ## Steps -/

namespace Accord

variable {κ : Accord} {ctx ctx' : Context} {m m' : Machine}

def EndAlike (κ : Accord) (o o' : Outcome) : Prop :=
  Option.Rel (fun r r' => r.1 = r'.1 ∧ r.2.Agree κ r'.2) o o'

/-- No step in two contexts leads out of an accord. All names that scopes are asked for are bound
alike, and built-in functions answer alike. -/
structure Kept (κ : Accord) (ctx ctx' : Context) : Prop where
  options_eq : ctx.options = ctx'.options
  builtins_eq : ctx.builtins = ctx'.builtins
  ownScope_eq : ctx.ownScope = ctx'.ownScope
  names : ∀ name, ¬ctx.builtins.has name = true → κ.names name
  note : ∀ {faults faults' : Array Fault}, κ.faults faults faults' →
    ∀ fault, κ.faults (faults.push fault) (faults'.push fault)
  callBuiltin : ∀ {m m' : Machine} {b : Builtin}, b ∈ ctx.builtins.table → m.Agree κ m' → ∀ args,
    κ.EndAlike (m.callBuiltin ctx.sink b args) (m'.callBuiltin ctx'.sink b args)

theorem Kept.noted (h : κ.Kept ctx ctx') (hm : m.Agree κ m') (fault : Fault) :
    (m.note fault).Agree κ (m'.note fault) :=
  ⟨hm.scopes, hm.lists_eq, h.note hm.faults fault, hm.console⟩

theorem enclose (hm : m.Agree κ m') (s : ScopeId) {bindings bindings' : Bindings}
    (hbindings : ∀ name, κ.names name → bindings.lookup name = bindings'.lookup name) :
    (m.enclose s bindings).1 = (m'.enclose s bindings').1 ∧
      (m.enclose s bindings).2.Agree κ (m'.enclose s bindings').2 :=
  ⟨hm.scopes.size_eq, hm.scopes.add (some s) hbindings, hm.lists_eq, hm.faults, hm.console⟩

theorem Kept.enterBranch (h : κ.Kept ctx ctx') (hm : m.Agree κ m') (code : Code) (s : ScopeId) :
    (ctx.enterBranch code s m).1 = (ctx'.enterBranch code s m').1 ∧
      (ctx.enterBranch code s m).2.Agree κ (ctx'.enterBranch code s m').2 := by
  by_cases hown : ctx.ownScope code = true
  · rw [Context.enterBranch_of_own hown, Context.enterBranch_of_own (h.ownScope_eq ▸ hown)]
    exact enclose hm s fun _ _ => rfl
  · rw [Context.enterBranch_of_not_own hown, Context.enterBranch_of_not_own (h.ownScope_eq ▸ hown)]
    exact ⟨rfl, hm⟩

/-- A name that is bound differently is a built-in function's, and so it means that function. -/
theorem Kept.resolve (h : κ.Kept ctx ctx') (hm : m.Agree κ m') (name : String) (s : ScopeId) :
    (ctx.resolve name s m).1 = (ctx'.resolve name s m').1 ∧
      (ctx.resolve name s m).2.Agree κ (ctx'.resolve name s m').2 := by
  by_cases hb : ctx.builtins.has name = true
  · rw [Context.resolve_of_builtin hb, Context.resolve_of_builtin (h.builtins_eq ▸ hb)]
    exact ⟨rfl, hm⟩
  have hb' : ¬ctx'.builtins.has name = true := h.builtins_eq ▸ hb
  have hget := hm.scopes.get?_eq (h.names name hb) s
  have hnoted := h.noted hm (.unbound name)
  cases hv : m.scopes.get? s name with
  | some v =>
    rw [Context.resolve_of_get? hb hv, Context.resolve_of_get? hb' (hget ▸ hv)]
    exact ⟨rfl, hm⟩
  | none =>
    cases hunset : ctx.options.unsetNames with
    | vivify =>
      rw [Context.resolve_of_vivify hb hv hunset,
        Context.resolve_of_vivify hb' (hget ▸ hv) (h.options_eq ▸ hunset)]
      exact ⟨rfl, hm.scopes.setGlobal s name .nil, hnoted.lists_eq, hnoted.faults, hnoted.console⟩
    | nil =>
      rw [Context.resolve_of_nil hb hv hunset,
        Context.resolve_of_nil hb' (hget ▸ hv) (h.options_eq ▸ hunset)]
      exact ⟨rfl, hnoted⟩

/-! ## Evaluation -/

def coupling (κ : Accord) : Coupling Unit where
  state _ := Machine.Agree κ
  scope _ := (· = ·)
  home _ := (· = ·)

theorem Kept.sound (h : κ.Kept ctx ctx') : κ.coupling.Sound ctx ctx' where
  arity_eq := congrArg Options.arity h.options_eq
  builtins_eq := h.builtins_eq
  scope_mono _ hs := hs
  home_mono _ hs := hs
  scope_of_home hs := hs
  lists hm := by
    refine ⟨by rw [hm.lists_eq], fun a => ?_⟩
    change List.Forall₂ (Value.Alike (· = ·)) _ _
    rw [Value.alike_eq, List.forall₂_eq_eq_eq, hm.lists_eq]
  note hm hfault := Fault.eq_of_alike hfault ▸ h.noted hm _
  newList {_ m m' vs vs'} hm hvs := by
    change List.Forall₂ (Value.Alike (· = ·)) _ _ at hvs
    rw [Value.alike_eq, List.forall₂_eq_eq_eq] at hvs
    exact ⟨hm.scopes, congrArg₂ Lists.alloc hm.lists_eq hvs, hm.faults, hm.console⟩
  bind := by
    rintro _ m m' s _ v v' hm rfl hv name
    obtain rfl := Value.alike_eq_iff.1 hv
    exact ⟨hm.scopes.set s name v, hm.lists_eq, hm.faults, hm.console⟩
  enclose := by
    rintro _ m m' s _ bindings bindings' hm rfl hbindings
    have hlookup := Bindings.lookup_eq_of_alike hbindings
    obtain ⟨hs, hm⟩ := enclose hm s fun name _ => hlookup name
    exact ⟨(), le_refl _, hm, hs⟩
  enterBranch := by
    rintro _ m m' s _ code hm rfl
    obtain ⟨hs, hm⟩ := h.enterBranch hm code s
    exact ⟨(), le_refl _, hm, hs, fun _ => hs⟩
  resolve := by
    rintro _ m m' s _ name hm rfl
    obtain ⟨hv, hm⟩ := h.resolve hm name s
    exact ⟨hm, Value.alike_eq_iff.2 hv⟩
  callBuiltin {_ m m' b args args'} hmem hm hargs := by
    change List.Forall₂ (Value.Alike (· = ·)) _ _ at hargs
    rw [Value.alike_eq, List.forall₂_eq_eq_eq] at hargs
    subst hargs
    have hcall := h.callBuiltin hmem hm args
    generalize m.callBuiltin ctx.sink b args = o, m'.callBuiltin ctx'.sink b args = o' at hcall ⊢
    cases hcall with
    | none => exact .none
    | some hr => exact Coupling.ends_some hr.2 (Value.alike_eq_iff.2 hr.1)

/-- Runs that start in accord end alike, with the same value and in accord. -/
theorem Kept.evalProgram (h : κ.Kept ctx ctx') (hm : m.Agree κ m') (fuel : Nat) (code : Code)
    (s : ScopeId) :
    κ.EndAlike (evalProgram ctx fuel code s m) (evalProgram ctx' fuel code s m') := by
  have hends := Coupling.evalProgram_ends h.sound (w := ()) (s := s) hm rfl fuel code
  generalize Scriptlet.evalProgram ctx fuel code s m = o at hends ⊢
  generalize Scriptlet.evalProgram ctx' fuel code s m' = o' at hends ⊢
  cases hends with
  | none => exact .none
  | some hmet =>
    obtain ⟨_, -, hm, hv⟩ := hmet
    exact .some ⟨Value.alike_eq_iff.1 hv, hm⟩

end Accord

end Scriptlet
