import Scriptlet.Builtin.Standard
import Scriptlet.Eval
import Scriptlet.Proofs.Lookups

/-!
# What evaluation leaves alone

Evaluation binds names in two ways. A `var` binds one in the scope that it runs in, and that is a
new scope unless it stands in the program itself: functions run in a new scope, and so do branches
with a `var`. A name that means nothing gets bound to nil in a scope with none around it, which did
not bind it. Built-in functions may leave scopes alone, as the standard ones do; then whatever runs,
little changes in the scopes that existed before. Each of them changes by such steps only
(`Scope.Change`), and this is carried through the evaluation.
-/

namespace Scriptlet

/-- The names that the statements of a block bind, nested blocks apart. -/
def Block.vars {ι : Type} (block : Block ι) : List String :=
  block.filterMap fun
    | .var name _ => some name
    | _ => none

theorem Block.vars_cons {ι : Type} (st : Stmt ι) (rest : Block ι) :
    Block.vars (st :: rest) = Block.vars [st] ++ rest.vars :=
  List.filterMap_append (l := [st])

theorem Block.vars_eq_nil {ι : Type} {block : Block ι} (h : block.binds = false) :
    block.vars = [] := by
  refine List.filterMap_eq_nil_iff.2 fun st hst => ?_
  have hvar := List.any_eq_false.1 h st hst
  cases st with
  | var => exact absurd rfl hvar
  | ret => rfl
  | expr => rfl

/-! ## One scope -/

/-- The changes of a scope: names of a list are bound, and names that are bound nowhere are bound
to nil. -/
inductive Scope.Change (unset : UnsetNames) (names : List String) (a : Scope) : Scope → Prop
  | refl : Change unset names a a
  | bind {b : Scope} (h : Change unset names a b) {name : String} (hname : name ∈ names)
      (v : Value) : Change unset names a { b with bindings := b.bindings.bind name v }
  | vivify {b : Scope} (h : Change unset names a b) (hunset : unset = .vivify)
      (hroot : b.outer = none) {name : String} (hname : b.bindings.lookup name = none) :
      Change unset names a { b with bindings := b.bindings.bind name .nil }

namespace Scope.Change

variable {unset : UnsetNames} {names : List String} {a b : Scope}

theorem outer_eq (h : a.Change unset names b) : b.outer = a.outer := by
  induction h with
  | refl => rfl
  | bind _ _ _ ih => exact ih
  | vivify _ _ _ _ ih => exact ih

theorem eq_of_outer_ne_none (h : a.Change unset [] b) (ha : a.outer ≠ none) : b = a := by
  cases h with
  | refl => rfl
  | bind _ hname => cases hname
  | vivify h _ hroot => exact absurd (h.outer_eq.symm.trans hroot) ha

theorem eq_of_unset_nil (h : a.Change .nil [] b) : b = a := by
  cases h with
  | refl => rfl
  | bind _ hname => cases hname
  | vivify _ hunset => cases hunset

/-- A name that is not of the list keeps what it is bound to. It may get bound to nil. -/
theorem lookup (h : a.Change unset names b) {name : String} (hname : name ∉ names) :
    b.bindings.lookup name = a.bindings.lookup name ∨
      a.outer = none ∧ a.bindings.lookup name = none ∧ b.bindings.lookup name = some .nil := by
  induction h with
  | refl => exact .inl rfl
  | @bind b h other hother v ih =>
    have hne : name ≠ other := fun h => hname (h ▸ hother)
    rwa [Bindings.lookup_bind, if_neg hne]
  | @vivify b h hunset hroot other hother ih =>
    rw [Bindings.lookup_bind]
    split
    next heq =>
      subst heq
      rcases ih with ih | ih
      · exact .inr ⟨h.outer_eq.symm.trans hroot, ih.symm.trans hother, rfl⟩
      · exact .inr ⟨ih.1, ih.2.1, rfl⟩
    next => exact ih

end Scope.Change

/-! ## The forest -/

/-- The first `n` scopes are still there, and of those only `s` may bind the names itself. -/
structure Scopes.Keeps (unset : UnsetNames) (n : Nat) (s : ScopeId) (names : List String)
    (before after : Scopes) : Prop where
  size_le : before.size ≤ after.size
  change : ∀ t < n, ∀ a, before.nodes[t]? = some a →
    ∃ b, after.nodes[t]? = some b ∧ a.Change unset (if t = s then names else []) b

namespace Scopes

variable {unset : UnsetNames} {n : Nat} {s s' t : ScopeId} {names : List String}
  {before after : Scopes} {name : String}

theorem Keeps.refl (scopes : Scopes) : scopes.Keeps unset n s names scopes :=
  ⟨Nat.le_refl _, fun _ _ a ha => ⟨a, ha, .refl⟩⟩

theorem Keeps.outer?_eq (h : before.Keeps unset n s names after) (ht : t < n)
    (hsize : t < before.size) : after.outer? t = before.outer? t := by
  have ha : before.nodes[t]? = some before.nodes[t] := Array.getElem?_eq_getElem hsize
  obtain ⟨b, hb, hchange⟩ := h.change t ht _ ha
  simp [outer?, ha, hb, hchange.outer_eq]

theorem Keeps.founded (h : before.Keeps unset n s names after) (hbefore : before.Founded n) :
    after.Founded n where
  le_size := Nat.le_trans hbefore.le_size h.size_le
  outer_lt t ht o ho := by
    rw [h.outer?_eq ht (Nat.lt_of_lt_of_le ht hbefore.le_size)] at ho
    exact hbefore.outer_lt t ht o ho

theorem nodes_set_self {scopes : Scopes} {b : Scope} (hb : scopes.nodes[s]? = some b)
    (name : String) (v : Value) :
    (scopes.set s name v).nodes[s]? = some { b with bindings := b.bindings.bind name v } := by
  simp [set, Array.getElem?_modify, hb]

theorem nodes_set_of_ne {scopes : Scopes} (h : s ≠ t) (name : String) (v : Value) :
    (scopes.set s name v).nodes[t]? = scopes.nodes[t]? := by
  simp [set, Array.getElem?_modify, h]

theorem nodes_add_of_lt {scopes : Scopes} (scope : Scope) (h : t < scopes.size) :
    (scopes.add scope).nodes[t]? = scopes.nodes[t]? := by
  simp only [size] at h
  simp [add, Array.getElem?_push, Nat.ne_of_lt h]

theorem Keeps.step (h : before.Keeps unset n s names after) {v : Value}
    (hstep : s' < n → ∀ a b : Scope, a.Change unset (if s' = s then names else []) b →
      after.nodes[s']? = some b →
      a.Change unset (if s' = s then names else []) { b with bindings := b.bindings.bind name v }) :
    before.Keeps unset n s names (after.set s' name v) where
  size_le := by simpa using h.size_le
  change t ht a ha := by
    obtain ⟨b, hb, hchange⟩ := h.change t ht a ha
    by_cases heq : s' = t
    · subst heq
      exact ⟨_, nodes_set_self hb name v, hstep ht a b hchange hb⟩
    · exact ⟨b, by rw [nodes_set_of_ne heq, hb], hchange⟩

theorem Keeps.set (h : before.Keeps unset n s names after) (v : Value)
    (hname : s' < n → s' = s ∧ name ∈ names) :
    before.Keeps unset n s names (after.set s' name v) :=
  h.step fun hs' a b hchange _ => by
    obtain ⟨rfl, hmem⟩ := hname hs'
    rw [if_pos rfl] at hchange ⊢
    exact hchange.bind hmem v

theorem Keeps.setGlobal (h : before.Keeps .vivify n s names after) (hbefore : before.Founded n)
    (hname : after.get? s' name = none) :
    before.Keeps .vivify n s names (after.setGlobal s' name .nil) :=
  h.step fun hroot a b hchange hb => by
    have houter := (h.founded hbefore).outer?_root hroot
    have hown := own?_root_eq_none hname
    rw [outer?, hb] at houter
    rw [own?, hb] at hown
    exact hchange.vivify rfl houter hown

theorem Keeps.add (h : before.Keeps unset n s names after) (hn : n ≤ after.size) (scope : Scope) :
    before.Keeps unset n s names (after.add scope) where
  size_le := by
    rw [size_add]
    exact Nat.le_succ_of_le h.size_le
  change t ht a ha := by
    obtain ⟨b, hb, hchange⟩ := h.change t ht a ha
    exact ⟨b, by rw [nodes_add_of_lt scope (Nat.lt_of_lt_of_le ht hn), hb], hchange⟩

end Scopes

/-! ## Steps of a run -/

/-- The state after part of a run that began with the scopes `before`. -/
structure Machine.Kept (ctx : Context) (n : Nat) (s : ScopeId) (names : List String)
    (before : Scopes) (m : Machine) : Prop where
  founded : before.Founded n
  keeps : before.Keeps ctx.options.unsetNames n s names m.scopes

def Outcome.Ends (o : Outcome) (P : Machine → Prop) : Prop :=
  ∀ v m, o = some (v, m) → P m

def Outcomes.Ends (o : Outcomes) (P : Machine → Prop) : Prop :=
  ∀ r m, o = some (r, m) → P m

section

variable {P : Machine → Prop}

theorem Outcome.ends_none : Outcome.Ends none P := by
  intro v m h
  cases h

theorem Outcome.ends_some {r : Value × Machine} (h : P r.2) : Outcome.Ends (some r) P := by
  intro v m hr
  cases hr
  exact h

theorem Outcome.Ends.andThen {o : Outcome} {next : Value → Machine → Outcome} (ho : o.Ends P)
    (hnext : ∀ v m, P m → (next v m).Ends P) : (o.andThen next).Ends P := by
  intro v m h
  rcases o with _ | ⟨w, m₁⟩
  · cases h
  have hm := ho w m₁ rfl
  cases w with
  | returned u =>
    cases h
    exact hm
  | _ => exact hnext _ m₁ hm v m h

theorem Outcome.Ends.arrive {o : Outcome} (ho : o.Ends P) : o.arrive.Ends P := by
  intro v m h
  obtain ⟨⟨w, m₁⟩, hw, hv⟩ := Option.map_eq_some_iff.1 h
  cases hv
  exact ho w _ hw

theorem Outcomes.Ends.andThen {o : Outcomes} {next : List Value → Machine → Outcome}
    (ho : o.Ends P) (hnext : ∀ vs m, P m → (next vs m).Ends P) : (o.andThen next).Ends P := by
  intro v m h
  rcases o with _ | ⟨_ | vs, m₁⟩
  · cases h
  · cases h
    exact ho _ _ rfl
  · exact hnext vs m₁ (ho _ m₁ rfl) v m h

end

def Builtins.LeaveScopes (builtins : Builtins) : Prop :=
  ∀ b ∈ builtins.table, b.LeavesScopes

theorem Builtins.standard_leaveScopes : Builtins.standard.LeaveScopes :=
  fun b hb => (standard_scopeless b hb).leavesScopes

section

variable {ctx : Context} {n : Nat} {s s' : ScopeId} {names : List String} {before : Scopes}
  {m : Machine}

theorem Machine.Kept.of_scopes_eq {m' : Machine}
    (h : m.Kept ctx n s names before) (hm : m'.scopes = m.scopes) :
    m'.Kept ctx n s names before :=
  ⟨h.founded, hm ▸ h.keeps⟩

theorem Machine.settle_scopes (m : Machine) (r : Except Fault Value) :
    (m.settle r).2.scopes = m.scopes := by
  cases r <;> rfl

theorem Machine.callBuiltin_scopes {sink : Sink} {b : Builtin} (hb : b.LeavesScopes)
    {args : List Value} {r : Value × Machine} (h : m.callBuiltin sink b args = some r) :
    r.2.scopes = m.scopes := by
  obtain ⟨result, store, haction, rfl⟩ := callBuiltin_eq_some_iff.1 h
  rw [settle_scopes]
  exact hb sink args m.store result store haction

theorem Machine.Kept.settle (h : m.Kept ctx n s names before)
    (r : Except Fault Value) : (m.settle r).2.Kept ctx n s names before :=
  h.of_scopes_eq (m.settle_scopes r)

theorem Machine.Kept.resolve (h : m.Kept ctx n s names before) (name : String) :
    (ctx.resolve name s' m).2.Kept ctx n s names before := by
  unfold Context.resolve
  split
  · exact h
  · split
    next => exact h
    next hname =>
      obtain ⟨hfounded, hkeeps⟩ := h
      dsimp only
      split
      next hunset =>
        rw [hunset] at hkeeps
        exact ⟨hfounded, hunset ▸ hkeeps.setGlobal hfounded hname⟩
      next => exact ⟨hfounded, hkeeps⟩

theorem Machine.Kept.enclose (h : m.Kept ctx n s names before) (outer : ScopeId)
    (bindings : Bindings) : (m.enclose outer bindings).2.Kept ctx n s names before :=
  ⟨h.founded, h.keeps.add (h.keeps.founded h.founded).le_size _⟩

theorem Machine.Kept.le_size (h : m.Kept ctx n s names before) : n ≤ m.scopes.size :=
  (h.keeps.founded h.founded).le_size

def Context.Encloses (ctx : Context) : Prop :=
  ∀ code : Code, ctx.ownScope code = false → code.binds = false

/-- The names that a block binds in its scope may be bound there, if the scope is an old one. -/
def Allowed (n : Nat) (s : ScopeId) (names : List String) (s' : ScopeId) (code : Code) : Prop :=
  ∀ name ∈ code.vars, s' < n → s' = s ∧ name ∈ names

theorem allowed_of_le (code : Code) (h : n ≤ s') : Allowed n s names s' code :=
  fun _ _ hs' => absurd hs' (Nat.not_lt.2 h)

/-! ## The evaluator, part by part -/

mutual

/-- What an expression binds, it binds in scopes of its own. -/
theorem evalExpr_keeps (hctx : ctx.Encloses) (hb : ctx.builtins.LeaveScopes) :
    ∀ fuel e s' m, m.Kept ctx n s names before →
    (evalExpr ctx fuel e s' m).Ends (Machine.Kept ctx n s names before)
  | 0, _, _, _, _ => by
    rw [evalExpr]
    exact Outcome.ends_none
  | fuel + 1, e, s', m, h => by
    have expr := evalExpr_keeps hctx hb fuel
    have exprs := evalExprs_keeps hctx hb fuel
    have branch := evalBranch_keeps hctx hb fuel
    rw [evalExpr.eq_def]
    dsimp only
    split
    · exact Outcome.ends_some (h.resolve _)
    · exact Outcome.ends_some h
    · exact Outcome.ends_some h
    · exact Outcome.ends_some h
    · exact Outcome.ends_some h
    · exact (exprs _ s' m h).andThen fun vs m h => Outcome.ends_some (h.of_scopes_eq rfl)
    · exact (expr _ s' m h).andThen fun v m h => Outcome.ends_some (h.settle _)
    · refine (expr _ s' m h).andThen fun l m h => ?_
      split
      · exact (expr _ s' m h).andThen fun r m h => Outcome.ends_some h
      · exact Outcome.ends_some h
    · refine (expr _ s' m h).andThen fun l m h => ?_
      split
      · exact Outcome.ends_some h
      · exact (expr _ s' m h).andThen fun r m h => Outcome.ends_some h
    · exact (expr _ s' m h).andThen fun l m h => (expr _ s' m h).andThen fun r m h =>
        Outcome.ends_some (h.settle _)
    · exact (expr _ s' m h).andThen fun t m h => (expr _ s' m h).andThen fun p m h =>
        Outcome.ends_some (h.settle _)
    · refine (expr _ s' m h).andThen fun c m h => ?_
      split
      · exact branch _ s' m h
      · split
        · exact branch _ s' m h
        · exact Outcome.ends_some h
    · exact Outcome.ends_some h
    · exact (expr _ s' m h).andThen fun f m h => (exprs _ s' m h).andThen fun args m h =>
        applyValue_keeps hctx hb fuel f args m h
termination_by structural fuel => fuel

theorem evalExprs_keeps (hctx : ctx.Encloses) (hb : ctx.builtins.LeaveScopes) :
    ∀ fuel es s' m, m.Kept ctx n s names before →
    (evalExprs ctx fuel es s' m).Ends (Machine.Kept ctx n s names before)
  | 0, _, _, _, _ => by
    intro r m' hr
    rw [evalExprs] at hr
    cases hr
  | fuel + 1, es, s', m, h => by
    intro r m' hr
    rw [evalExprs.eq_def] at hr
    dsimp only at hr
    split at hr
    · cases hr
      exact h
    next e es =>
      have hfirst := evalExpr_keeps hctx hb fuel e s' m h
      split at hr
      · cases hr
      next hv =>
        cases hr
        exact hfirst _ _ hv
      next m₁ _ hv =>
        have hrest := evalExprs_keeps hctx hb fuel es s' m₁ (hfirst _ _ hv)
        split at hr
        · cases hr
        next hvs =>
          cases hr
          exact hrest _ _ hvs
        next hvs =>
          cases hr
          exact hrest _ _ hvs
termination_by structural fuel => fuel

theorem evalStmt_keeps (hctx : ctx.Encloses) (hb : ctx.builtins.LeaveScopes) :
    ∀ fuel st s' m, m.Kept ctx n s names before →
    Allowed n s names s' [st] →
      (evalStmt ctx fuel st s' m).Ends (Machine.Kept ctx n s names before)
  | 0, _, _, _, _, _ => by
    rw [evalStmt]
    exact Outcome.ends_none
  | fuel + 1, st, s', m, h, hallowed => by
    have expr := evalExpr_keeps hctx hb fuel
    rw [evalStmt.eq_def]
    dsimp only
    split
    · exact expr _ s' m h
    · exact (expr _ s' m h).andThen fun v m h => Outcome.ends_some h
    next name e =>
      refine (expr _ s' m h).andThen fun v m h => Outcome.ends_some ?_
      exact ⟨h.founded, h.keeps.set v (hallowed name (by simp [Block.vars]))⟩
termination_by structural fuel => fuel

theorem evalBlock_keeps (hctx : ctx.Encloses) (hb : ctx.builtins.LeaveScopes) :
    ∀ fuel last code s' m,
    m.Kept ctx n s names before → Allowed n s names s' code →
      (evalBlock ctx fuel last code s' m).Ends (Machine.Kept ctx n s names before)
  | 0, _, _, _, _, _, _ => by
    rw [evalBlock]
    exact Outcome.ends_none
  | fuel + 1, last, [], s', m, h, _ => by
    rw [evalBlock]
    exact Outcome.ends_some h
  | fuel + 1, last, st :: rest, s', m, h, hallowed => by
    rw [evalBlock]
    rw [Allowed, Block.vars_cons] at hallowed
    have hst : Allowed n s names s' [st] := fun name hname =>
      hallowed name (List.mem_append_left _ hname)
    have hrest : Allowed n s names s' rest := fun name hname =>
      hallowed name (List.mem_append_right _ hname)
    exact (evalStmt_keeps hctx hb fuel st s' m h hst).andThen fun v m h =>
      evalBlock_keeps hctx hb fuel v rest s' m h hrest
termination_by structural fuel => fuel

theorem evalBranch_keeps (hctx : ctx.Encloses) (hb : ctx.builtins.LeaveScopes) :
    ∀ fuel code s' m, m.Kept ctx n s names before →
    (evalBranch ctx fuel code s' m).Ends (Machine.Kept ctx n s names before)
  | 0, _, _, _, _ => by
    rw [evalBranch]
    exact Outcome.ends_none
  | fuel + 1, code, s', m, h => by
    rw [evalBranch, Context.enterBranch]
    by_cases hown : ctx.ownScope code = true
    · rw [if_pos hown]
      exact evalBlock_keeps hctx hb fuel .nil code _ _ (h.enclose s' [])
        (allowed_of_le code h.le_size)
    · rw [if_neg hown]
      have hvars := Block.vars_eq_nil (hctx code (by simpa using hown))
      exact evalBlock_keeps hctx hb fuel .nil code s' m h fun name hname => by simp [hvars] at hname
termination_by structural fuel => fuel

theorem applyValue_keeps (hctx : ctx.Encloses) (hb : ctx.builtins.LeaveScopes) :
    ∀ fuel f args m, m.Kept ctx n s names before →
    (applyValue ctx fuel f args m).Ends (Machine.Kept ctx n s names before)
  | 0, _, _, _, _ => by
    rw [applyValue]
    exact Outcome.ends_none
  | fuel + 1, f, args, m, h => by
    rw [applyValue.eq_def]
    dsimp only
    split
    next c =>
      split
      · exact Outcome.ends_some (h.settle _)
      · have hnoted : (((c.arityFault? args.length).map m.note).getD m).Kept ctx n s names
            before := by
          cases c.arityFault? args.length with
          | none => exact h
          | some fault => exact h.of_scopes_eq rfl
        exact (evalBlock_keeps hctx hb fuel .nil c.body _ _ (hnoted.enclose c.scope _)
          (allowed_of_le c.body hnoted.le_size)).arrive
    · split
      next b hfind =>
        exact fun v m' hcall => h.of_scopes_eq
          (Machine.callBuiltin_scopes (hb b (List.mem_of_find?_eq_some hfind)) hcall)
      · exact Outcome.ends_some (h.settle _)
    · exact Outcome.ends_some (h.settle _)
termination_by structural fuel => fuel

end

end

/-! ## Whole runs -/

/-- What a program that runs in `s` and binds these names itself may change in the scopes that were
there before. -/
structure Scopes.Frame (s : ScopeId) (names : List String) (before after : Scopes) : Prop where
  outer : ∀ t < before.size, after.outer? t = before.outer? t
  /-- Other scopes inside of one stay as they are. -/
  inner : ∀ t < before.size, t ≠ s → before.outer? t ≠ none → after.nodes[t]? = before.nodes[t]?
  /-- Outermost scopes bind new names to nil, besides what the program binds. -/
  own : ∀ t < before.size, ∀ name, (t = s → name ∉ names) →
    after.own? t name = before.own? t name ∨
      before.outer? t = none ∧ before.own? t name = none ∧ after.own? t name = some .nil

namespace Scopes

variable {unset : UnsetNames} {s t : ScopeId} {names : List String} {before after : Scopes}

theorem Keeps.change_of_lt (h : before.Keeps unset before.size s names after)
    (ht : t < before.size) :
    ∃ a b, before.nodes[t]? = some a ∧ after.nodes[t]? = some b ∧
      a.Change unset (if t = s then names else []) b := by
  have ha : before.nodes[t]? = some before.nodes[t] := Array.getElem?_eq_getElem ht
  obtain ⟨b, hb, hchange⟩ := h.change t ht _ ha
  exact ⟨_, b, ha, hb, hchange⟩

theorem Keeps.frame (h : before.Keeps unset before.size s names after) :
    before.Frame s names after where
  outer t ht := h.outer?_eq ht ht
  inner t ht hts houter := by
    obtain ⟨a, b, ha, hb, hchange⟩ := h.change_of_lt ht
    rw [if_neg hts] at hchange
    rw [outer?, ha] at houter
    rw [ha, hb, hchange.eq_of_outer_ne_none houter]
  own t ht name hname := by
    obtain ⟨a, b, ha, hb, hchange⟩ := h.change_of_lt ht
    have hnotin : name ∉ if t = s then names else [] := by
      split
      next heq => exact hname heq
      next => exact List.not_mem_nil
    simpa [own?, outer?, ha, hb] using hchange.lookup hnotin

theorem Keeps.own?_eq_some (h : before.Keeps unset before.size s [] after) {name : String}
    {v : Value} (hv : before.own? t name = some v) : after.own? t name = some v := by
  rcases h.frame.own t (lt_size_of_own?_eq_some hv) name fun _ => List.not_mem_nil with h | h
  · rw [h, hv]
  · rw [h.2.1] at hv
    cases hv

theorem Keeps.nodes_eq (h : before.Keeps .nil before.size s [] after) (ht : t < before.size) :
    after.nodes[t]? = before.nodes[t]? := by
  obtain ⟨a, b, ha, hb, hchange⟩ := h.change_of_lt ht
  rw [ite_self] at hchange
  rw [ha, hb, hchange.eq_of_unset_nil]

end Scopes

/-- A program changes next to nothing in the scopes that are there already, other than by its own
`var` statements in the scope that it runs in. An expression does not change any binding, and
nothing at all if names are not bound by being read. -/
theorem evaluation_frame (options : Options) {builtins : Builtins} (hb : builtins.LeaveScopes)
    (sink : Sink) {m : Machine} (hm : m.scopes.Founded m.scopes.size) (fuel : Nat) (s : ScopeId) :
    (∀ code v m', evalProgram { options, builtins, sink } fuel code s m = some (v, m') →
      m.scopes.Frame s code.vars m'.scopes) ∧
    ∀ e v m', evalExpr { options, builtins, sink } fuel e s m = some (v, m') →
      m.scopes.Frame s [] m'.scopes ∧
      (∀ t name w, m.scopes.own? t name = some w → m'.scopes.own? t name = some w) ∧
      (options.unsetNames = .nil →
        ∀ t < m.scopes.size, m'.scopes.nodes[t]? = m.scopes.nodes[t]?) := by
  have hctx : Context.Encloses { options, builtins, sink } := fun _ => id
  have start (names : List String) :
      m.Kept { options, builtins, sink } m.scopes.size s names m.scopes := ⟨hm, .refl _⟩
  refine ⟨fun code v m' h => ?_, fun e v m' h => ?_⟩
  · have hblock := evalBlock_keeps hctx hb fuel .nil code s m (start code.vars) fun _ hname _ =>
      ⟨rfl, hname⟩
    exact (hblock.arrive v m' h).keeps.frame
  · have hkeeps := (evalExpr_keeps hctx hb fuel e s m (start []) v m' h).keeps
    refine ⟨hkeeps.frame, fun t name w => hkeeps.own?_eq_some, fun hunset t => ?_⟩
    dsimp only at hkeeps
    rw [hunset] at hkeeps
    exact hkeeps.nodes_eq

/-- A function that binds a name and reads an unset one, called by a program inside of the outermost
scope. The name that it binds is not seen, and the other one is bound to nil outside. -/
theorem evaluation_frame_of_call :
    let m := ((Machine.empty.newRoot).2.enclose 0 [("k", .int 7)]).2
    let code : Code := [.var "f" (.func 0 [] [.var "k" (.int 1), .expr (.ident "z")]),
      .expr (.call (.ident "f") [])]
    ∃ v m', evalProgram ⟨{}, .standard, Sink.unlimited, Block.binds⟩ 9 code 1 m = some (v, m') ∧
      m.scopes.Frame 1 ["f"] m'.scopes ∧ m'.scopes.own? 1 "k" = some (.int 7) ∧
      m'.scopes.own? 0 "z" = some .nil := by
  intro m code
  have hm : m.scopes.Founded m.scopes.size := by
    refine ⟨Nat.le_refl _, fun t ht o ho => ?_⟩
    match t, ht with
    | 0, _ => cases ho
    | 1, _ =>
      cases ho
      exact Nat.zero_lt_one
  let run := evalProgram ⟨{}, .standard, Sink.unlimited, Block.binds⟩ 9 code 1 m
  obtain ⟨⟨v, m'⟩, hrun⟩ : ∃ r, run = some r := Option.isSome_iff_exists.1 (by decide +kernel)
  have hk : run.map (fun r => r.2.scopes.own? 1 "k") = some (some (.int 7)) := by decide +kernel
  have hz : run.map (fun r => r.2.scopes.own? 0 "z") = some (some .nil) := by decide +kernel
  rw [hrun] at hk hz
  have hframe := evaluation_frame {} Builtins.standard_leaveScopes Sink.unlimited hm 9 1
  exact ⟨v, m', hrun, hframe.1 code v m' hrun, Option.some.inj hk, Option.some.inj hz⟩

end Scriptlet
