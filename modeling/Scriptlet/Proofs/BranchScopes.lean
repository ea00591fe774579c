import Scriptlet.Proofs.Coupling
import Scriptlet.Proofs.Folding
import Scriptlet.Proofs.Frame

/-!
# Branches without scopes of their own

A branch that binds nothing itself runs in the scope around it. If it ran in a scope of its own, as
other branches do, that scope would stay empty: it would only make ways outwards longer. So a run in
which every branch gets a scope is the same as far as anyone can see, and it ends when the other
one does; and what is left in scopes corresponds.
-/

namespace Scriptlet

/-- The same state, but for extra scopes. Notes show the same texts. -/
structure Machine.Folds (φ : Folding) (m unfolded : Machine) : Prop where
  scopes : m.scopes.Folds φ unfolded.scopes
  lists : m.lists.Alike φ.Stands unfolded.lists
  console_eq : m.console = unfolded.console
  faults : List.Forall₂ (Fault.Alike fun _ _ => True) m.faults.toList unfolded.faults.toList

def Context.everyBranch (ctx : Context) : Context :=
  { ctx with ownScope := fun _ => true }

/-- A run beside one with extra scopes. Names are not bound in extra scopes. -/
def Coupling.folding : Coupling Folding where
  state φ m unfolded := m.Folds φ unfolded
  scope φ s t := φ.Stands s t
  home φ s t := φ.Stands s t ∧ φ.extra t = false

namespace Machine.Folds

variable {φ : Folding} {m unfolded : Machine} {s t : ScopeId}

theorem note (h : m.Folds φ unfolded) {fault fault' : Fault}
    (hfault : fault.Alike (fun _ _ => True) fault') :
    (m.note fault).Folds φ (unfolded.note fault') where
  scopes := h.scopes
  lists := h.lists
  console_eq := h.console_eq
  faults := by
    simp only [Machine.note, Array.toList_push]
    exact List.rel_append h.faults (.cons hfault .nil)

theorem bind (h : m.Folds φ unfolded) (hst : φ.Stands s t) (hkept : φ.extra t = false)
    {v v' : Value} (hv : v.Alike φ.Stands v') (name : String) :
    (m.bind s name v).Folds φ (unfolded.bind t name v') :=
  ⟨h.scopes.set hst hkept hv name, h.lists, h.console_eq, h.faults⟩

theorem lists_mono {ψ : Folding} (h : m.Folds φ unfolded) (hφ : φ ≤ ψ) :
    m.lists.Alike ψ.Stands unfolded.lists :=
  h.lists.mono fun _ _ hst => hst.mono hφ

theorem enclose (h : m.Folds φ unfolded) (hst : φ.Stands s t) {bindings bindings' : Bindings}
    (hbindings : bindings.Alike φ.Stands bindings') :
    (m.enclose s bindings).2.Folds (φ.add m.scopes.size false) (unfolded.enclose t bindings').2 where
  scopes := h.scopes.add hst hbindings
  lists := h.lists_mono (φ.le_add _ _)
  console_eq := h.console_eq
  faults := h.faults

theorem encloseExtra (h : m.Folds φ unfolded) (hst : φ.Stands s t) :
    m.Folds (φ.add s true) (unfolded.enclose t []).2 where
  scopes := h.scopes.addExtra hst
  lists := h.lists_mono (φ.le_add _ _)
  console_eq := h.console_eq
  faults := h.faults

/-- The scope that was added last to the run with extra scopes. -/
theorem stands_new (h : m.Folds φ unfolded) (home : ScopeId) (extra : Bool) :
    (φ.add home extra).Stands home unfolded.scopes.size := by
  rw [h.scopes.size_eq]
  exact ⟨Nat.lt_succ_self _, (φ.home_add_self home extra).symm⟩

/-- A name means corresponding things, and corresponding things happen if it means nothing. -/
theorem resolve (h : m.Folds φ unfolded) (ctx : Context) (hst : φ.Stands s t) (name : String) :
    (ctx.resolve name s m).2.Folds φ (ctx.everyBranch.resolve name t unfolded).2 ∧
      (ctx.resolve name s m).1.Alike φ.Stands (ctx.everyBranch.resolve name t unfolded).1 := by
  by_cases hbuiltin : ctx.builtins.has name = true
  · have hbuiltin' : ctx.everyBranch.builtins.has name = true := hbuiltin
    rw [Context.resolve_of_builtin hbuiltin, Context.resolve_of_builtin hbuiltin']
    exact ⟨h, .atom rfl⟩
  have hbuiltin' : ¬ctx.everyBranch.builtins.has name = true := hbuiltin
  have hget := h.scopes.get? hst name
  cases hv : m.scopes.get? s name with
  | some v =>
    rw [hv] at hget
    cases hv' : unfolded.scopes.get? t name with
    | none => rw [hv'] at hget; cases hget
    | some v' =>
      rw [hv'] at hget
      rw [Context.resolve_of_get? hbuiltin hv, Context.resolve_of_get? hbuiltin' hv']
      cases hget with
      | some hv => exact ⟨h, hv⟩
  | none =>
    rw [hv] at hget
    cases hv' : unfolded.scopes.get? t name with
    | some => rw [hv'] at hget; cases hget
    | none =>
      have hunbound : Fault.Alike (fun _ _ => True) (.unbound name) (.unbound name) := .plain rfl
      have hnoted := h.note hunbound
      cases hunset : ctx.options.unsetNames with
      | nil =>
        have hunset' : ctx.everyBranch.options.unsetNames = .nil := hunset
        rw [Context.resolve_of_nil hbuiltin hv hunset, Context.resolve_of_nil hbuiltin' hv' hunset']
        exact ⟨hnoted, .atom rfl⟩
      | vivify =>
        have hunset' : ctx.everyBranch.options.unsetNames = .vivify := hunset
        rw [Context.resolve_of_vivify hbuiltin hv hunset,
          Context.resolve_of_vivify hbuiltin' hv' hunset']
        obtain ⟨hroot, hkept⟩ := h.scopes.root hst
        exact ⟨hnoted.bind hroot hkept (.atom rfl) name, .atom rfl⟩

theorem settle (h : m.Folds φ unfolded) {r r' : Except Fault Value}
    (hr : Concur r r' (Value.Alike φ.Stands) (Fault.Alike φ.Stands)) :
    (m.settle r).2.Folds φ (unfolded.settle r').2 ∧
      (m.settle r).1.Alike φ.Stands (unfolded.settle r').1 := by
  rcases r with fault | v <;> rcases r' with fault' | v'
  · have hfault : fault.Alike φ.Stands fault' := hr
    exact ⟨h.note (hfault.mono fun _ _ _ => trivial), .atom rfl⟩
  · exact hr.elim
  · exact hr.elim
  · exact ⟨h, hr⟩

theorem callBuiltin (h : m.Folds φ unfolded) {b : Builtin} (hb : b.Blind) (sink : Sink)
    {args args' : List Value} (hargs : List.Forall₂ (Value.Alike φ.Stands) args args') :
    Coupling.folding.Ends φ (m.callBuiltin sink b args) (unfolded.callBuiltin sink b args') := by
  have haction := hb φ.Stands sink args args' m.store unfolded.store hargs h.lists h.console_eq
  simp only [Machine.callBuiltin]
  generalize b.action sink args m.store = o, b.action sink args' unfolded.store = o' at haction ⊢
  cases haction with
  | none => exact .none
  | @some r r' hr =>
    obtain ⟨hresult, hlists, hconsole, hscopes, hscopes'⟩ := hr
    have hafter : (m.withStore r.2).Folds φ (unfolded.withStore r'.2) := by
      refine ⟨?_, hlists, hconsole, h.faults⟩
      rw [Machine.withStore, Machine.withStore, hscopes, hscopes']
      exact h.scopes
    obtain ⟨hfolds, hv⟩ := settle hafter hresult
    exact Coupling.ends_some hfolds hv

end Machine.Folds

namespace Coupling

/-- A scope for every branch makes no difference to any step, if branches that bind names get one
anyway. -/
theorem folding_sound {ctx : Context} (hctx : ctx.Encloses) (hb : ctx.builtins.Blind) :
    folding.Sound ctx ctx.everyBranch where
  arity_eq := rfl
  builtins_eq := rfl
  scope_mono hφ hst := hst.mono hφ
  home_mono hφ hst := ⟨hst.1.mono hφ, by rw [(hφ.2 _ hst.1.1).2, hst.2]⟩
  scope_of_home hst := hst.1
  lists h := h.lists
  note h hfault := Machine.Folds.note h (hfault.mono fun _ _ _ => trivial)
  newList h hvs := ⟨h.scopes, h.lists.alloc hvs, h.console_eq, h.faults⟩
  bind h hst hv name := Machine.Folds.bind h hst.1 hst.2 hv name
  enclose := by
    intro φ m unfolded s t bindings bindings' h hst hbindings
    refine ⟨_, φ.le_add _ _, Machine.Folds.enclose h hst hbindings, h.stands_new _ _, ?_⟩
    simp [Machine.enclose, h.scopes.size_eq]
  enterBranch := by
    intro φ m unfolded s t code h hst
    have hevery : ctx.everyBranch.ownScope code = true := rfl
    rw [Context.enterBranch_of_own hevery]
    by_cases hown : ctx.ownScope code = true
    · rw [Context.enterBranch_of_own hown]
      have hempty : Bindings.Alike φ.Stands [] [] := fun _ => .none
      have hnew := h.stands_new m.scopes.size false
      refine ⟨_, φ.le_add _ _, Machine.Folds.enclose h hst hempty, hnew, fun _ => ⟨hnew, ?_⟩⟩
      simp [Machine.enclose, h.scopes.size_eq]
    · -- the branch runs in the scope around it on one side and in an extra one on the other, and
      -- that no name may be bound in the extra one does no harm
      rw [Context.enterBranch_of_not_own hown]
      have hbinds : code.binds = false := hctx code (by simpa using hown)
      refine ⟨_, φ.le_add _ _, Machine.Folds.encloseExtra h hst, h.stands_new _ _, fun hbinds' => ?_⟩
      rw [hbinds] at hbinds'
      cases hbinds'
  resolve name h hst := Machine.Folds.resolve h ctx hst name
  callBuiltin hmem h hargs := Machine.Folds.callBuiltin h (hb _ hmem) ctx.sink hargs

end Coupling

/-! ## Whole programs -/

/-- A state folds onto itself. -/
theorem Machine.Scoped.folds_self {m : Machine} (h : m.Scoped) :
    m.Folds (.identity m.scopes.size) m := by
  have stands (s : ScopeId) (hs : s < m.scopes.size) :
      (Folding.identity m.scopes.size).Stands s s := ⟨hs, rfl⟩
  refine ⟨?scopes, ⟨rfl, fun a => ?lists⟩, rfl, ?faults⟩
  case scopes =>
    constructor
    case size_eq => rfl
    case home_lt => exact fun _ hs => hs
    case older => exact h.outer
    case injective => exact fun _ _ _ _ _ _ heq => heq
    case extra_own? => exact fun _ _ hextra => nomatch hextra
    case extra_outer? => exact fun _ _ hextra => nomatch hextra
    case own? =>
      intro s hs _ name
      change Option.Rel _ (m.scopes.own? s name) (m.scopes.own? s name)
      cases hv : m.scopes.own? s name with
      | none => exact .none
      | some v => exact .some ((h.bound s name v hv).alike stands)
    case outer? =>
      intro s hs _
      change Option.Rel _ (m.scopes.outer? s) (m.scopes.outer? s)
      cases ho : m.scopes.outer? s with
      | none => exact .none
      | some o => exact .some (stands o (Nat.lt_trans (h.outer s o ho) hs))
  case lists => exact List.forall₂_same.2 fun v hv => (h.listed a v hv).alike stands
  case faults => exact List.forall₂_same.2 fun fault _ => .refl (fun _ => trivial) fault

/-- A value and a state look the same as others to everyone: as a text, as code, and as anything
that programs can make of the value; in what was printed; and in the messages of the faults. -/
structure SameLook (r r' : Value × Machine) : Prop where
  display_eq : r.1.display r.2.lists = r'.1.display r'.2.lists
  code_eq : r.1.code r.2.lists = r'.1.code r'.2.lists
  kind_eq : r.1.kind = r'.1.kind
  truthy_eq : r.1.truthy r.2.lists = r'.1.truthy r'.2.lists
  console_eq : r.2.console = r'.2.console
  messages_eq : r.2.faults.toList.map (·.message r.2.lists) =
    r'.2.faults.toList.map (·.message r'.2.lists)

theorem Machine.Folds.messages_eq {φ : Folding} {m unfolded : Machine} (h : m.Folds φ unfolded) :
    m.faults.toList.map (·.message m.lists) =
      unfolded.faults.toList.map (·.message unfolded.lists) := by
  have hlists : m.lists.Alike (fun _ _ => True) unfolded.lists := h.lists.mono fun _ _ _ => trivial
  have hfaults := h.faults
  generalize m.faults.toList = faults, unfolded.faults.toList = faults' at hfaults ⊢
  induction hfaults with
  -- not by `rfl`, which compares the messages of all faults for the two lists
  | nil => rw [List.map_nil, List.map_nil]
  | cons hfault _ ih => rw [List.map_cons, List.map_cons, hfault.message_eq hlists, ih]

theorem Machine.Folds.sameLook {φ : Folding} {m unfolded : Machine} (h : m.Folds φ unfolded)
    {v v' : Value} (hv : v.Alike φ.Stands v') : SameLook (v, m) (v', unfolded) :=
  ⟨hv.display_eq h.lists, hv.code_eq h.lists, hv.kind_eq, hv.truthy_eq h.lists, h.console_eq,
    h.messages_eq⟩

/-- Giving a scope to branches that bind nothing changes nothing that anyone can see: not the value
of a program, nor whether it ends, nor what it prints and which faults it notes. The scopes that were
there keep binding the same names to corresponding values: functions correspond if they are the same
but for captured scopes, and the ways outwards from those are the same but for extra scopes, which
bind nothing. The standard built-in functions are among those for which this holds. -/
theorem branchScopes_unobservable :
    Builtins.standard.Blind ∧
    ∀ (options : Options) (builtins : Builtins) (sink : Sink), builtins.Blind →
      ∀ m : Machine, m.Scoped → ∀ s < m.scopes.size, ∀ fuel code,
        Option.Rel (fun r r' => SameLook r r' ∧
          ∃ φ : Folding, r.2.Folds φ r'.2 ∧ r.1.Alike φ.Stands r'.1 ∧
            (∀ t < m.scopes.size, φ.home t = t ∧ φ.extra t = false ∧ ∀ name,
              Option.Rel (Value.Alike φ.Stands) (r.2.scopes.own? t name)
                (r'.2.scopes.own? t name)) ∧
            ∀ t < φ.size,
              r.2.scopes.chain (φ.home t) =
                ((r'.2.scopes.chain t).filter (!φ.extra ·)).map φ.home ∧
              (φ.extra t = true → ∀ name, r'.2.scopes.own? t name = none))
          (evalProgram { options, builtins, sink } fuel code s m)
          (evalProgram (Context.everyBranch { options, builtins, sink }) fuel code s m) := by
  refine ⟨Builtins.standard_blind, fun options builtins sink hb m hm s hs fuel code => ?_⟩
  let ctx : Context := { options, builtins, sink }
  have hencloses : ctx.Encloses := fun _ => id
  have hstart : Coupling.folding.home (.identity m.scopes.size) s s := ⟨⟨hs, rfl⟩, rfl⟩
  have hends := Coupling.evalProgram_ends (Coupling.folding_sound hencloses hb) hm.folds_self hstart
    fuel code
  change Option.Rel _ (evalProgram ctx fuel code s m) (evalProgram ctx.everyBranch fuel code s m)
  generalize evalProgram ctx fuel code s m = o, evalProgram ctx.everyBranch fuel code s m = o'
    at hends ⊢
  cases hends with
  | none => exact .none
  | @some r r' hmet =>
    obtain ⟨φ, hφ, hfolds, hv⟩ := hmet
    refine .some ⟨hfolds.sameLook hv, φ, hfolds, hv, fun t ht => ?_, fun t ht =>
      ⟨hfolds.scopes.chain_eq ht, hfolds.scopes.extra_own? t ht⟩⟩
    obtain ⟨hhome, hextra⟩ := hφ.2 t ht
    have hown := hfolds.scopes.own? t (Nat.lt_of_lt_of_le ht hφ.1) hextra
    rw [hhome] at hown
    exact ⟨hhome, hextra, hown⟩

/-- A branch makes a function that reads a name of the program, and later on there is a `var` of that
name. The function captures the scope of the call around the branch, or else an extra one. -/
theorem branchScopes_unobservable_of_closure :
    let m := Machine.empty.newRoot.2
    let inner : Code := [.expr (.ident "y")]
    let code : Code := [
      .var "make" (.func 0 ["x"] [.expr (.cond (.ident "x") [.expr (.func 1 [] inner)] none)]),
      .var "read" (.call (.ident "make") [.bool true]),
      .expr (.call (.ident "read") []), .var "y" (.int 4), .expr (.call (.ident "read") [])]
    let ctx : Context := { options := {}, builtins := .standard, sink := .unlimited }
    m.Scoped ∧
    ∃ r r', evalProgram ctx 20 code 0 m = some r ∧
      evalProgram ctx.everyBranch 20 code 0 m = some r' ∧ SameLook r r' ∧ r.1 = .int 4 ∧
      r.2.scopes.own? 0 "read" = some (.func ⟨1, [], inner, 1⟩) ∧
      r'.2.scopes.own? 0 "read" = some (.func ⟨1, [], inner, 2⟩) ∧
      r.2.scopes.chain 1 = [1, 0] ∧ r'.2.scopes.chain 2 = [2, 1, 0] := by
  intro m inner code ctx
  have hm : m.Scoped := Machine.scoped_newRoot
  obtain ⟨hb, hall⟩ := branchScopes_unobservable
  have hrel : Option.Rel _ (evalProgram ctx 20 code 0 m) (evalProgram ctx.everyBranch 20 code 0 m) :=
    hall {} .standard .unlimited hb m hm 0 (by decide) 20 code
  have hrun : (evalProgram ctx 20 code 0 m).map (fun r =>
      (r.1, r.2.scopes.own? 0 "read", r.2.scopes.chain 1)) =
        some (.int 4, some (.func ⟨1, [], inner, 1⟩), [1, 0]) := by
    decide +kernel
  have hplain : (evalProgram ctx.everyBranch 20 code 0 m).map (fun r =>
      (r.2.scopes.own? 0 "read", r.2.scopes.chain 2)) =
        some (some (.func ⟨1, [], inner, 2⟩), [2, 1, 0]) := by
    decide +kernel
  obtain ⟨r, hr, hseen⟩ := Option.map_eq_some_iff.1 hrun
  obtain ⟨r', hr', hseen'⟩ := Option.map_eq_some_iff.1 hplain
  rw [hr, hr'] at hrel
  cases hrel with
  | some h =>
    simp only [Prod.mk.injEq] at hseen hseen'
    exact ⟨hm, r, r', hr, hr', h.1, hseen.1, hseen.2.1, hseen'.1, hseen.2.2, hseen'.2⟩

end Scriptlet
