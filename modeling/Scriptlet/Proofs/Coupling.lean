import Mathlib.Order.Defs.PartialOrder
import Scriptlet.Proofs.Likeness
import Scriptlet.Proofs.Upkeep

/-!
# Two runs side by side

One program that runs in two contexts, or from two states. A `Coupling` says how states and scopes
of the two runs correspond; values do if they are the same up to captured scopes, and those
correspond. The correspondence may grow as the runs add scopes, which is what its worlds are for. If
the steps that depend on contexts and states keep up the correspondence, so does all evaluation: the
runs end for the same amounts of fuel, with values that correspond.
-/

namespace Scriptlet

/-- A correspondence between the states and the scopes of two runs, at each of several worlds. -/
structure Coupling (W : Type) where
  state : W → Machine → Machine → Prop
  /-- Scopes that code runs in and that functions capture. -/
  scope : W → ScopeId → ScopeId → Prop
  /-- Scopes that code may bind names in. -/
  home : W → ScopeId → ScopeId → Prop

namespace Coupling

variable {W : Type} [Preorder W] {π : Coupling W} {w w₁ : W} {m m' : Machine} {s s' : ScopeId}

def Met (π : Coupling W) (w : W) (r r' : Value × Machine) : Prop :=
  ∃ w₁, w ≤ w₁ ∧ π.state w₁ r.2 r'.2 ∧ r.1.Alike (π.scope w₁) r'.1

/-- Steps that end alike: both out of fuel, or with values and states that correspond. -/
def Ends (π : Coupling W) (w : W) (o o' : Outcome) : Prop :=
  Option.Rel (π.Met w) o o'

def EndAll (π : Coupling W) (w : W) (o o' : Outcomes) : Prop :=
  Option.Rel (fun r r' => ∃ w₁, w ≤ w₁ ∧ π.state w₁ r.2 r'.2 ∧
    match r.1, r'.1 with
    | .ok vs, .ok vs' => List.Forall₂ (Value.Alike (π.scope w₁)) vs vs'
    | .error v, .error v' => v.Alike (π.scope w₁) v'
    | _, _ => False) o o'

/-- The steps of two contexts that look at more than values keep up a correspondence. -/
structure Sound (π : Coupling W) (ctx ctx' : Context) : Prop where
  arity_eq : ctx.options.arity = ctx'.options.arity
  builtins_eq : ctx.builtins = ctx'.builtins
  scope_mono : ∀ {w w₁ s s'}, w ≤ w₁ → π.scope w s s' → π.scope w₁ s s'
  home_mono : ∀ {w w₁ s s'}, w ≤ w₁ → π.home w s s' → π.home w₁ s s'
  scope_of_home : ∀ {w s s'}, π.home w s s' → π.scope w s s'
  lists : ∀ {w m m'}, π.state w m m' → m.lists.Alike (π.scope w) m'.lists
  note : ∀ {w m m' fault fault'}, π.state w m m' → Fault.Alike (π.scope w) fault fault' →
    π.state w (m.note fault) (m'.note fault')
  newList : ∀ {w m m' vs vs'}, π.state w m m' → List.Forall₂ (Value.Alike (π.scope w)) vs vs' →
    π.state w (m.newList vs).2 (m'.newList vs').2
  bind : ∀ {w m m' s s' v v'}, π.state w m m' → π.home w s s' → Value.Alike (π.scope w) v v' →
    ∀ name, π.state w (m.bind s name v) (m'.bind s' name v')
  enclose : ∀ {w m m' s s' bindings bindings'}, π.state w m m' → π.scope w s s' →
    Bindings.Alike (π.scope w) bindings bindings' →
      ∃ w₁, w ≤ w₁ ∧ π.state w₁ (m.enclose s bindings).2 (m'.enclose s' bindings').2 ∧
        π.home w₁ (m.enclose s bindings).1 (m'.enclose s' bindings').1
  enterBranch : ∀ {w m m' s s'} (code : Code), π.state w m m' → π.scope w s s' →
    ∃ w₁, w ≤ w₁ ∧ π.state w₁ (ctx.enterBranch code s m).2 (ctx'.enterBranch code s' m').2 ∧
      π.scope w₁ (ctx.enterBranch code s m).1 (ctx'.enterBranch code s' m').1 ∧
      (code.binds = true →
        π.home w₁ (ctx.enterBranch code s m).1 (ctx'.enterBranch code s' m').1)
  resolve : ∀ {w m m' s s'} (name : String), π.state w m m' → π.scope w s s' →
    π.state w (ctx.resolve name s m).2 (ctx'.resolve name s' m').2 ∧
      (ctx.resolve name s m).1.Alike (π.scope w) (ctx'.resolve name s' m').1
  callBuiltin : ∀ {w m m' b args args'}, b ∈ ctx.builtins.table → π.state w m m' →
    List.Forall₂ (Value.Alike (π.scope w)) args args' →
      π.Ends w (m.callBuiltin ctx.sink b args) (m'.callBuiltin ctx'.sink b args')

/-! ## Outcomes -/

theorem ends_some {r r' : Value × Machine} (h : π.state w r.2 r'.2)
    (hv : r.1.Alike (π.scope w) r'.1) : π.Ends w (some r) (some r') :=
  .some ⟨w, le_refl w, h, hv⟩

theorem Ends.after {o o' : Outcome} (h : π.Ends w₁ o o') (hw : w ≤ w₁) : π.Ends w o o' := by
  cases h with
  | none => exact .none
  | some h =>
    obtain ⟨w₂, hw₂, h⟩ := h
    exact .some ⟨w₂, le_trans hw hw₂, h⟩

theorem Ends.andThen {o o' : Outcome} {next next' : Value → Machine → Outcome}
    (h : π.Ends w o o') (hnext : ∀ w₁, w ≤ w₁ → ∀ v v' m m', π.state w₁ m m' →
      v.Alike (π.scope w₁) v' → π.Ends w₁ (next v m) (next' v' m')) :
    π.Ends w (o.andThen next) (o'.andThen next') := by
  cases h with
  | none => exact .none
  | @some r r' h =>
    obtain ⟨v, m⟩ := r
    obtain ⟨v', m'⟩ := r'
    obtain ⟨w₁, hw, hm, hv⟩ := h
    have hnext := (hnext w₁ hw v v' m m' hm hv).after hw
    cases hv with
    | returned hv => exact .some ⟨w₁, hw, hm, .returned hv⟩
    | atom hatom =>
      cases v with
      | returned => cases hatom
      | _ => exact hnext
    | list | func => exact hnext

theorem Ends.arrive {o o' : Outcome} (h : π.Ends w o o') : π.Ends w o.arrive o'.arrive := by
  cases h with
  | none => exact .none
  | some h =>
    obtain ⟨w₁, hw, hm, hv⟩ := h
    exact .some ⟨w₁, hw, hm, hv.arrived⟩

theorem EndAll.andThen {o o' : Outcomes} {next next' : List Value → Machine → Outcome}
    (h : π.EndAll w o o') (hnext : ∀ w₁, w ≤ w₁ → ∀ vs vs' m m', π.state w₁ m m' →
      List.Forall₂ (Value.Alike (π.scope w₁)) vs vs' → π.Ends w₁ (next vs m) (next' vs' m')) :
    π.Ends w (o.andThen next) (o'.andThen next') := by
  cases h with
  | none => exact .none
  | @some r r' h =>
    obtain ⟨r, m⟩ := r
    obtain ⟨r', m'⟩ := r'
    obtain ⟨w₁, hw, hm, hr⟩ := h
    rcases r with v | vs <;> rcases r' with v' | vs'
    · exact .some ⟨w₁, hw, hm, hr⟩
    · exact hr.elim
    · exact hr.elim
    · exact (hnext w₁ hw vs vs' m m' hm hr).after hw

namespace Sound

variable {ctx ctx' : Context}

theorem alike_mono (h : π.Sound ctx ctx') (hw : w ≤ w₁) {v v' : Value}
    (hv : v.Alike (π.scope w) v') : v.Alike (π.scope w₁) v' :=
  hv.mono fun _ _ => h.scope_mono hw

theorem cons (h : π.Sound ctx ctx') {o o' : Outcome} {rest rest' : Machine → Outcomes}
    (ho : π.Ends w o o') (hrest : ∀ w₁, w ≤ w₁ → ∀ m m', π.state w₁ m m' →
      π.EndAll w₁ (rest m) (rest' m')) :
    π.EndAll w (Outcomes.cons o rest) (Outcomes.cons o' rest') := by
  cases ho with
  | none => exact .none
  | @some r r' hr =>
    obtain ⟨v, m⟩ := r
    obtain ⟨v', m'⟩ := r'
    obtain ⟨w₁, hw, hm, hv⟩ := hr
    have hrest := hrest w₁ hw m m' hm
    have through (hv : v.Alike (π.scope w₁) v') (hpass : v.isReturned = false) :
        π.EndAll w (Outcomes.cons (some (v, m)) rest) (Outcomes.cons (some (v', m')) rest') := by
      have hpass' := hv.isReturned_eq ▸ hpass
      rw [Outcomes.cons_of_pass hpass, Outcomes.cons_of_pass hpass']
      generalize rest m = q, rest' m' = q' at hrest ⊢
      cases hrest with
      | none => exact .none
      | @some t t' ht =>
        obtain ⟨t, m₂⟩ := t
        obtain ⟨t', m₂'⟩ := t'
        obtain ⟨w₂, hw₂, hm₂, ht⟩ := ht
        refine .some ⟨w₂, le_trans hw hw₂, hm₂, ?_⟩
        rcases t with u | vs <;> rcases t' with u' | vs'
        · exact ht
        · exact ht.elim
        · exact ht.elim
        · exact .cons (h.alike_mono hw₂ hv) ht
    cases hv with
    | returned hv => exact .some ⟨w₁, hw, hm, .returned hv⟩
    | atom hatom =>
      cases v with
      | returned => cases hatom
      | _ => exact through (.atom hatom) rfl
    | list a => exact through (.list a) rfl
    | func hs label params body => exact through (.func hs label params body) rfl

/-! ## Steps -/

theorem settle (h : π.Sound ctx ctx') (hm : π.state w m m') {r r' : Except Fault Value}
    (hr : Concur r r' (Value.Alike (π.scope w)) (Fault.Alike (π.scope w))) :
    π.Ends w (some (m.settle r)) (some (m'.settle r')) := by
  rcases r with fault | v <;> rcases r' with fault' | v'
  · exact ends_some (h.note hm hr) (.atom rfl)
  · exact hr.elim
  · exact hr.elim
  · exact ends_some hm hr

theorem enter (h : π.Sound ctx ctx') (label : Nat) (params : List String) (body : Code)
    (hm : π.state w m m') (hs : π.scope w s s') {args args' : List Value}
    (hargs : List.Forall₂ (Value.Alike (π.scope w)) args args') :
    ∃ w₁, w ≤ w₁ ∧
      π.state w₁ (m.enter ⟨label, params, body, s⟩ args).2
        (m'.enter ⟨label, params, body, s'⟩ args').2 ∧
      π.home w₁ (m.enter ⟨label, params, body, s⟩ args).1
        (m'.enter ⟨label, params, body, s'⟩ args').1 := by
  have hbindings : Bindings.Alike (π.scope w) (Bindings.bindParams [] params args)
      (Bindings.bindParams [] params args') :=
    Bindings.Alike.bindParams params (fun _ => .none) hargs
  rw [Machine.enter, Machine.enter, ← hargs.length_eq]
  simp only [Closure.arityFault?]
  split
  · exact h.enclose hm hs hbindings
  · exact h.enclose (h.note hm (.plain rfl)) hs hbindings

theorem refusal?_eq (h : π.Sound ctx ctx') (label : Nat) (params : List String) (body : Code)
    (s s' : ScopeId) (got : Nat) :
    ctx'.refusal? ⟨label, params, body, s'⟩ got = ctx.refusal? ⟨label, params, body, s⟩ got := by
  rw [Context.refusal?, Context.refusal?, h.arity_eq]
  rfl

theorem refusal_alike {R : ScopeId → ScopeId → Prop} {c : Closure} {got : Nat} {fault : Fault}
    (hfault : ctx.refusal? c got = some fault) : fault.Alike R fault := by
  simp only [Context.refusal?, Closure.arityFault?] at hfault
  split at hfault
  · split at hfault
    · cases hfault
    · cases hfault
      exact .plain rfl
  · cases hfault

end Sound

/-! ## The evaluator, part by part -/

section

variable {ctx ctx' : Context}

mutual

/-- The two runs of an expression end alike. -/
theorem evalExpr_ends (h : π.Sound ctx ctx') : ∀ fuel e w s s' m m', π.state w m m' →
    π.scope w s s' → π.Ends w (evalExpr ctx fuel e s m) (evalExpr ctx' fuel e s' m')
  | 0, _, _, _, _, _, _, _, _ => by
    rw [evalExpr, evalExpr]
    exact .none
  | fuel + 1, e, w, s, s', m, m', hm, hs => by
    have expr := evalExpr_ends h fuel
    have exprs := evalExprs_ends h fuel
    have branch := evalBranch_ends h fuel
    match e with
    | .ident name =>
      rw [evalExpr, evalExpr]
      obtain ⟨hm', hv⟩ := h.resolve name hm hs
      exact ends_some hm' hv
    | .int n =>
      rw [evalExpr, evalExpr]
      exact ends_some hm (.atom rfl)
    | .bool b =>
      rw [evalExpr, evalExpr]
      exact ends_some hm (.atom rfl)
    | .str text =>
      rw [evalExpr, evalExpr]
      exact ends_some hm (.atom rfl)
    | .nil =>
      rw [evalExpr, evalExpr]
      exact ends_some hm (.atom rfl)
    | .list elements =>
      rw [evalExpr, evalExpr]
      refine (exprs elements w s s' m m' hm hs).andThen fun w₁ _ vs vs' m m' hm hvs => ?_
      refine ends_some (h.newList hm hvs) ?_
      simp only [Machine.newList, (h.lists hm).size_eq]
      exact .list _
    | .prefixOp op operand =>
      rw [evalExpr, evalExpr]
      refine (expr operand w s s' m m' hm hs).andThen fun w₁ _ v v' m m' hm hv => ?_
      exact h.settle hm (op.apply_alike (h.lists hm) hv)
    | .infixOp op left right =>
      -- `and` and `or` may do without their right operand
      by_cases hand : op = .and
      · subst hand
        rw [evalExpr, evalExpr]
        refine (expr left w s s' m m' hm hs).andThen fun w₁ hw l l' m m' hm hl => ?_
        rw [hl.truthy_eq (h.lists hm)]
        split
        · refine (expr right w₁ s s' m m' hm (h.scope_mono hw hs)).andThen
            fun w₂ _ r r' m m' hm hr => ?_
          rw [hr.truthy_eq (h.lists hm)]
          exact ends_some hm (.atom rfl)
        · exact ends_some hm (.atom rfl)
      · by_cases hor : op = .or
        · subst hor
          rw [evalExpr, evalExpr]
          refine (expr left w s s' m m' hm hs).andThen fun w₁ hw l l' m m' hm hl => ?_
          rw [hl.truthy_eq (h.lists hm)]
          split
          · exact ends_some hm (.atom rfl)
          · refine (expr right w₁ s s' m m' hm (h.scope_mono hw hs)).andThen
              fun w₂ _ r r' m m' hm hr => ?_
            rw [hr.truthy_eq (h.lists hm)]
            exact ends_some hm (.atom rfl)
        · rw [evalExpr_infixOp hand hor, evalExpr_infixOp hand hor]
          refine (expr left w s s' m m' hm hs).andThen fun w₁ hw l l' m m' hm hl => ?_
          refine (expr right w₁ s s' m m' hm (h.scope_mono hw hs)).andThen
            fun w₂ hw₂ r r' m m' hm hr => ?_
          exact h.settle hm (op.apply_alike (h.lists hm) (h.alike_mono hw₂ hl) hr)
    | .index target position =>
      rw [evalExpr, evalExpr]
      refine (expr target w s s' m m' hm hs).andThen fun w₁ hw t t' m m' hm ht => ?_
      refine (expr position w₁ s s' m m' hm (h.scope_mono hw hs)).andThen
        fun w₂ hw₂ p p' m m' hm hp => ?_
      exact h.settle hm (Value.index_alike (h.lists hm) (h.alike_mono hw₂ ht) hp)
    | .cond condition consequence alternative =>
      rw [evalExpr, evalExpr]
      refine (expr condition w s s' m m' hm hs).andThen fun w₁ hw c c' m m' hm hc => ?_
      have hs₁ := h.scope_mono hw hs
      rw [hc.truthy_eq (h.lists hm)]
      split
      · exact branch consequence w₁ s s' m m' hm hs₁
      · cases alternative with
        | some code => exact branch code w₁ s s' m m' hm hs₁
        | none => exact ends_some hm (.atom rfl)
    | .func label params body =>
      rw [evalExpr, evalExpr]
      exact ends_some hm (.func hs label params body)
    | .call callee arguments =>
      rw [evalExpr, evalExpr]
      refine (expr callee w s s' m m' hm hs).andThen fun w₁ hw f f' m m' hm hf => ?_
      refine (exprs arguments w₁ s s' m m' hm (h.scope_mono hw hs)).andThen
        fun w₂ hw₂ args args' m m' hm hargs => ?_
      exact applyValue_ends h fuel w₂ f f' args args' m m' hm (h.alike_mono hw₂ hf) hargs
termination_by structural fuel => fuel

theorem evalExprs_ends (h : π.Sound ctx ctx') : ∀ fuel es w s s' m m', π.state w m m' →
    π.scope w s s' → π.EndAll w (evalExprs ctx fuel es s m) (evalExprs ctx' fuel es s' m')
  | 0, _, _, _, _, _, _, _, _ => by
    rw [evalExprs, evalExprs]
    exact .none
  | fuel + 1, [], w, _, _, _, _, hm, _ => by
    rw [evalExprs, evalExprs]
    exact .some ⟨w, le_refl w, hm, .nil⟩
  | fuel + 1, e :: es, w, s, s', m, m', hm, hs => by
    rw [evalExprs_cons, evalExprs_cons]
    exact h.cons (evalExpr_ends h fuel e w s s' m m' hm hs) fun w₁ hw m m' hm =>
      evalExprs_ends h fuel es w₁ s s' m m' hm (h.scope_mono hw hs)
termination_by structural fuel => fuel

/-- Only a `var` needs a scope that names may be bound in. -/
theorem evalStmt_ends (h : π.Sound ctx ctx') : ∀ fuel st w s s' m m', π.state w m m' →
    π.scope w s s' → (st.isVar = true → π.home w s s') →
      π.Ends w (evalStmt ctx fuel st s m) (evalStmt ctx' fuel st s' m')
  | 0, _, _, _, _, _, _, _, _, _ => by
    rw [evalStmt, evalStmt]
    exact .none
  | fuel + 1, .expr e, w, s, s', m, m', hm, hs, _ => by
    rw [evalStmt, evalStmt]
    exact evalExpr_ends h fuel e w s s' m m' hm hs
  | fuel + 1, .ret e, w, s, s', m, m', hm, hs, _ => by
    rw [evalStmt, evalStmt]
    exact (evalExpr_ends h fuel e w s s' m m' hm hs).andThen fun w₁ _ v v' m m' hm hv =>
      ends_some hm (.returned hv)
  | fuel + 1, .var name e, w, s, s', m, m', hm, hs, hhome => by
    rw [evalStmt, evalStmt]
    exact (evalExpr_ends h fuel e w s s' m m' hm hs).andThen fun w₁ hw v v' m m' hm hv =>
      ends_some (h.bind hm (h.home_mono hw (hhome rfl)) hv name) hv
termination_by structural fuel => fuel

theorem evalBlock_ends (h : π.Sound ctx ctx') : ∀ fuel code w s s' last last' m m',
    π.state w m m' → π.scope w s s' → (code.binds = true → π.home w s s') →
      last.Alike (π.scope w) last' →
        π.Ends w (evalBlock ctx fuel last code s m) (evalBlock ctx' fuel last' code s' m')
  | 0, _, _, _, _, _, _, _, _, _, _, _, _ => by
    rw [evalBlock, evalBlock]
    exact .none
  | fuel + 1, [], w, s, s', last, last', m, m', hm, _, _, hlast => by
    rw [evalBlock, evalBlock]
    exact ends_some hm hlast
  | fuel + 1, st :: rest, w, s, s', _, _, m, m', hm, hs, hhome, _ => by
    rw [evalBlock, evalBlock]
    have hst (hvar : st.isVar = true) : π.home w s s' := hhome (by simp [Block.binds, hvar])
    refine (evalStmt_ends h fuel st w s s' m m' hm hs hst).andThen fun w₁ hw v v' m m' hm hv => ?_
    have hrest (hbinds : Block.binds rest = true) : π.home w₁ s s' :=
      h.home_mono hw (hhome (by simp_all [Block.binds]))
    exact evalBlock_ends h fuel rest w₁ s s' v v' m m' hm (h.scope_mono hw hs) hrest hv
termination_by structural fuel => fuel

theorem evalBranch_ends (h : π.Sound ctx ctx') : ∀ fuel code w s s' m m', π.state w m m' →
    π.scope w s s' → π.Ends w (evalBranch ctx fuel code s m) (evalBranch ctx' fuel code s' m')
  | 0, _, _, _, _, _, _, _, _ => by
    rw [evalBranch, evalBranch]
    exact .none
  | fuel + 1, code, w, s, s', m, m', hm, hs => by
    rw [evalBranch, evalBranch]
    obtain ⟨w₁, hw, hm₁, hs₁, hhome⟩ := h.enterBranch code hm hs
    exact (evalBlock_ends h fuel code w₁ _ _ .nil .nil _ _ hm₁ hs₁ hhome (.atom rfl)).after hw
termination_by structural fuel => fuel

theorem applyValue_ends (h : π.Sound ctx ctx') : ∀ fuel w f f' args args' m m', π.state w m m' →
    f.Alike (π.scope w) f' → List.Forall₂ (Value.Alike (π.scope w)) args args' →
      π.Ends w (applyValue ctx fuel f args m) (applyValue ctx' fuel f' args' m')
  | 0, _, _, _, _, _, _, _, _, _, _ => by
    rw [applyValue, applyValue]
    exact .none
  | fuel + 1, w, f, f', args, args', m, m', hm, hf, hargs => by
    have refused : π.Ends w (some (m.settle (.error (.notAFunction f))))
        (some (m'.settle (.error (.notAFunction f')))) := h.settle hm (.notAFunction hf)
    cases hf with
    | @func t t' ht label params body =>
      rw [applyValue_func, applyValue_func, ← hargs.length_eq, h.refusal?_eq label params body t t']
      split
      next fault hfault => exact h.settle hm (Sound.refusal_alike hfault)
      next =>
        obtain ⟨w₁, hw, hm₁, hhome⟩ := h.enter label params body hm ht hargs
        exact ((evalBlock_ends h fuel body w₁ _ _ .nil .nil _ _ hm₁ (h.scope_of_home hhome)
          (fun _ => hhome) (.atom rfl)).arrive).after hw
    | atom hatom =>
      match f with
      | .builtin name =>
        rw [applyValue, applyValue, ← h.builtins_eq]
        split
        next b hfind =>
          exact h.callBuiltin (List.mem_of_find?_eq_some hfind) hm hargs
        next => exact refused
      | .int _ | .bool _ | .str _ | .nil =>
        rw [applyValue.eq_def, applyValue.eq_def]
        exact refused
    | list | returned =>
      rw [applyValue.eq_def, applyValue.eq_def]
      exact refused
termination_by structural fuel => fuel

end

/-- The two runs of a program end alike. -/
theorem evalProgram_ends (h : π.Sound ctx ctx') (hm : π.state w m m') (hs : π.home w s s')
    (fuel : Nat) (code : Code) :
    π.Ends w (evalProgram ctx fuel code s m) (evalProgram ctx' fuel code s' m') :=
  (evalBlock_ends h fuel code w s s' .nil .nil m m' hm (h.scope_of_home hs) (fun _ => hs)
    (.atom rfl)).arrive

end

end Coupling

end Scriptlet
