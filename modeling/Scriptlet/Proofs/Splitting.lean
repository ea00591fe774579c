import Scriptlet.Proofs.Indifference
import Scriptlet.Session

/-!
# Programs one after the other

A program can be cut between any two of its statements: running the first part and then the second
is running the whole, unless a statement of the first part leaves the program, and then the second
part does not run at all. What the parts hand on is the state of the session and nothing else.
-/

namespace Scriptlet

namespace Context

/-- A statement comes to a value, with some amount of fuel. -/
def Steps (ctx : Context) (s : ScopeId) (st : Stmt Nat) (m : Machine) (v : Value) (m' : Machine) :
    Prop :=
  ∃ fuel, evalStmt ctx fuel st s m = some (v, m')

/-- All statements of a block are run, and none of them has a value on its way out. The value of the
block is the last one's, or `last` if there are none. -/
inductive Passes (ctx : Context) (s : ScopeId) :
    Value → Code → Machine → Value → Machine → Prop
  | nil (last : Value) (m : Machine) : Passes ctx s last [] m last m
  | cons {last u v : Value} {st : Stmt Nat} {rest : Code} {m m₁ m₂ : Machine}
    (hst : ctx.Steps s st m u m₁) (hu : u.isReturned = false)
    (hrest : Passes ctx s u rest m₁ v m₂) : Passes ctx s last (st :: rest) m v m₂

/-- A statement of a block has a value on its way out, and those before it have not. -/
inductive Leaves (ctx : Context) (s : ScopeId) : Code → Machine → Value → Machine → Prop
  | here {v : Value} {st : Stmt Nat} {rest : Code} {m m₁ : Machine}
    (hst : ctx.Steps s st m (.returned v) m₁) : Leaves ctx s (st :: rest) m v m₁
  | later {u v : Value} {st : Stmt Nat} {rest : Code} {m m₁ m₂ : Machine}
    (hst : ctx.Steps s st m u m₁) (hu : u.isReturned = false)
    (hrest : Leaves ctx s rest m₁ v m₂) : Leaves ctx s (st :: rest) m v m₂

def Ends (ctx : Context) (s : ScopeId) (code : Code) (m : Machine) (v : Value) (m' : Machine) :
    Prop :=
  ∃ fuel, evalProgram ctx fuel code s m = some (v, m')

variable {ctx : Context} {s : ScopeId} {p q : Code} {m m₁ m₂ : Machine} {last u v w : Value}

/-- A statement comes to one value only: whatever fuel two runs had, one of them had more. -/
theorem Steps.unique {st : Stmt Nat} (h : ctx.Steps s st m u m₁) (h' : ctx.Steps s st m v m₂) :
    u = v ∧ m₁ = m₂ := by
  obtain ⟨fuel, h⟩ := h
  obtain ⟨fuel', h'⟩ := h'
  rcases Nat.le_total fuel fuel' with hle | hle
  · exact Prod.mk.inj (Option.some.inj ((evalStmt_of_le hle h).symm.trans h'))
  · exact Prod.mk.inj (Option.some.inj (h.symm.trans (evalStmt_of_le hle h')))

/-! ## Blocks -/

theorem Passes.unique (h : ctx.Passes s last p m u m₁) (h' : ctx.Passes s last p m v m₂) :
    u = v ∧ m₁ = m₂ := by
  induction h with
  | nil =>
    cases h'
    exact ⟨rfl, rfl⟩
  | cons hst hu hrest ih =>
    cases h' with
    | cons hst' hu' hrest' =>
      obtain ⟨rfl, rfl⟩ := hst.unique hst'
      exact ih hrest'

theorem Leaves.unique (h : ctx.Leaves s p m u m₁) (h' : ctx.Leaves s p m v m₂) :
    u = v ∧ m₁ = m₂ := by
  induction h with
  | here hst =>
    cases h' with
    | here hst' =>
      obtain ⟨hv, hm⟩ := hst.unique hst'
      exact ⟨Value.returned.inj hv, hm⟩
    | later hst' hu' =>
      obtain ⟨rfl, -⟩ := hst.unique hst'
      cases hu'
  | later hst hu hrest ih =>
    cases h' with
    | here hst' =>
      obtain ⟨rfl, -⟩ := hst.unique hst'
      cases hu
    | later hst' hu' hrest' =>
      obtain ⟨rfl, rfl⟩ := hst.unique hst'
      exact ih hrest'

theorem Passes.not_leaves (h : ctx.Passes s last p m u m₁) : ¬ctx.Leaves s p m v m₂ := by
  intro h'
  induction h with
  | nil => cases h'
  | cons hst hu hrest ih =>
    cases h' with
    | here hst' =>
      obtain ⟨rfl, -⟩ := hst.unique hst'
      cases hu
    | later hst' hu' hrest' =>
      obtain ⟨rfl, rfl⟩ := hst.unique hst'
      exact ih hrest'

theorem Passes.isReturned_eq (h : ctx.Passes s last p m v m₁) (hlast : last.isReturned = false) :
    v.isReturned = false := by
  induction h with
  | nil => exact hlast
  | cons _ hu _ ih => exact ih hu

/-- The value that a block starts with matters only if the block is empty. -/
theorem Passes.from_last (h : ctx.Passes s last p m v m₁) (u : Value) :
    ctx.Passes s u p m (if p = [] then u else v) m₁ := by
  cases h with
  | nil => exact .nil u m
  | cons hst hu hrest => exact .cons hst hu hrest

theorem passes_append_iff : ctx.Passes s last (p ++ q) m v m₂ ↔
    ∃ u m₁, ctx.Passes s last p m u m₁ ∧ ctx.Passes s u q m₁ v m₂ := by
  constructor
  · intro h
    induction p generalizing last m with
    | nil => exact ⟨last, m, .nil last m, h⟩
    | cons st p ih =>
      cases h with
      | cons hst hu hrest =>
        obtain ⟨u, m₁, hp, hq⟩ := ih hrest
        exact ⟨u, m₁, .cons hst hu hp, hq⟩
  · rintro ⟨u, m₁, hp, hq⟩
    induction hp with
    | nil => exact hq
    | cons hst hu _ ih => exact .cons hst hu (ih hq)

theorem leaves_append_iff (last : Value) : ctx.Leaves s (p ++ q) m v m₂ ↔
    ctx.Leaves s p m v m₂ ∨ ∃ u m₁, ctx.Passes s last p m u m₁ ∧ ctx.Leaves s q m₁ v m₂ := by
  constructor
  · intro h
    induction p generalizing last m with
    | nil => exact .inr ⟨last, m, .nil last m, h⟩
    | cons st p ih =>
      cases h with
      | here hst => exact .inl (.here hst)
      | @later u _ _ _ _ _ _ hst hu hrest =>
        rcases ih u hrest with hp | ⟨w, m₁, hp, hq⟩
        · exact .inl (.later hst hu hp)
        · exact .inr ⟨w, m₁, .cons hst hu hp, hq⟩
  · rintro (h | ⟨u, m₁, hp, hq⟩)
    · induction h with
      | here hst => exact .here hst
      | later hst hu _ ih => exact .later hst hu ih
    · induction hp with
      | nil => exact hq
      | cons hst hu _ ih => exact .later hst hu (ih hq)

/-! ## Programs -/

/-- What the first statement of a block comes to decides whether the others run. -/
theorem evalBlock_cons_iff {st : Stmt Nat} {rest : Code} :
    (∃ fuel, evalBlock ctx fuel last (st :: rest) s m = some (v, m₂)) ↔
      ∃ u m₁, ctx.Steps s st m u m₁ ∧
        if u.isReturned then v = u ∧ m₂ = m₁
        else ∃ fuel, evalBlock ctx fuel u rest s m₁ = some (v, m₂) := by
  have andThen_some (u : Value) (m₁ : Machine) (next : Value → Machine → Outcome) :
      Outcome.andThen (some (u, m₁)) next =
        if u.isReturned then some (u, m₁) else next u m₁ := by
    cases u <;> rfl
  constructor
  · rintro ⟨_ | fuel, h⟩
    · rw [evalBlock] at h
      cases h
    rw [evalBlock] at h
    cases hst : evalStmt ctx fuel st s m with
    | none =>
      rw [hst] at h
      cases h
    | some r =>
      refine ⟨r.1, r.2, ⟨fuel, hst⟩, ?_⟩
      rw [hst, andThen_some] at h
      split at h
      next hr =>
        cases h
        rw [if_pos hr]
        exact ⟨rfl, rfl⟩
      next hr =>
        rw [if_neg hr]
        exact ⟨fuel, h⟩
  · rintro ⟨u, m₁, ⟨fuel, hst⟩, h⟩
    split at h
    next hu =>
      obtain ⟨rfl, rfl⟩ := h
      exact ⟨fuel + 1, by rw [evalBlock, hst, andThen_some, if_pos hu]⟩
    next hu =>
      obtain ⟨fuel', h⟩ := h
      refine ⟨max fuel fuel' + 1, ?_⟩
      rw [evalBlock, evalStmt_of_le (Nat.le_max_left ..) hst, andThen_some, if_neg hu]
      exact evalBlock_of_le (Nat.le_max_right ..) h

theorem evalBlock_iff : (∃ fuel, evalBlock ctx fuel last p s m = some (v, m₂)) ↔
    ctx.Passes s last p m v m₂ ∨ ∃ w, v = .returned w ∧ ctx.Leaves s p m w m₂ := by
  induction p generalizing last m with
  | nil =>
    constructor
    · rintro ⟨_ | fuel, h⟩
      · rw [evalBlock] at h
        cases h
      · rw [evalBlock] at h
        cases h
        exact .inl (.nil _ _)
    · rintro (h | ⟨w, -, h⟩)
      · cases h
        exact ⟨1, by rw [evalBlock]⟩
      · cases h
  | cons st rest ih =>
    rw [evalBlock_cons_iff]
    constructor
    · rintro ⟨u, m₁, hst, h⟩
      split at h
      next hu =>
        obtain ⟨rfl, rfl⟩ := h
        cases v with
        | returned w => exact .inr ⟨w, rfl, .here hst⟩
        | _ => cases hu
      next hu =>
        have hu := Bool.eq_false_iff.2 hu
        rcases ih.1 h with hpass | ⟨w, rfl, hleave⟩
        · exact .inl (.cons hst hu hpass)
        · exact .inr ⟨w, rfl, .later hst hu hleave⟩
    · rintro (h | ⟨w, rfl, h⟩)
      · cases h with
        | @cons _ u _ _ _ _ m₁ _ hst hu hrest =>
          refine ⟨u, m₁, hst, ?_⟩
          rw [if_neg (Bool.eq_false_iff.1 hu)]
          exact ih.2 (.inl hrest)
      · cases h with
        | here hst => exact ⟨_, _, hst, ⟨rfl, rfl⟩⟩
        | @later u _ _ _ _ m₁ _ hst hu hrest =>
          refine ⟨u, m₁, hst, ?_⟩
          rw [if_neg (Bool.eq_false_iff.1 hu)]
          exact ih.2 (.inr ⟨w, rfl, hrest⟩)

/-- A program ends in two ways: behind its last statement, or where one of them leaves it. -/
theorem ends_iff : ctx.Ends s p m v m₂ ↔ ctx.Passes s .nil p m v m₂ ∨ ctx.Leaves s p m v m₂ := by
  have arrived_of_pass {w : Value} (h : ctx.Passes s .nil p m w m₂) : w.arrived = w := by
    have hw := h.isReturned_eq rfl
    cases w with
    | returned => cases hw
    | _ => rfl
  constructor
  · rintro ⟨fuel, h⟩
    obtain ⟨⟨w, m'⟩, hrun, hw⟩ := Option.map_eq_some_iff.1 h
    obtain ⟨rfl, rfl⟩ := Prod.mk.inj hw
    rcases evalBlock_iff.1 ⟨fuel, hrun⟩ with hpass | ⟨w, rfl, hleave⟩
    · rw [arrived_of_pass hpass]
      exact .inl hpass
    · exact .inr hleave
  · rintro (h | h)
    · obtain ⟨fuel, hrun⟩ := evalBlock_iff.2 (.inl h)
      have harrived : Outcome.arrive (some (v, m₂)) = some (v, m₂) :=
        congrArg (fun w => some (w, m₂)) (arrived_of_pass h)
      exact ⟨fuel, by rw [evalProgram, hrun, harrived]⟩
    · obtain ⟨fuel, hrun⟩ := evalBlock_iff.2 (.inr ⟨v, rfl, h⟩)
      exact ⟨fuel, by rw [evalProgram, hrun]; rfl⟩

/-- Behind a program that passes another one runs as if it came by itself. -/
theorem Passes.ends_append_iff (hp : ctx.Passes s .nil p m u m₁) : ctx.Ends s (p ++ q) m v m₂ ↔
    ∃ w, ctx.Ends s q m₁ w m₂ ∧ v = if q = [] then u else w := by
  have passes_iff : ctx.Passes s .nil (p ++ q) m v m₂ ↔ ctx.Passes s u q m₁ v m₂ := by
    rw [passes_append_iff]
    constructor
    · rintro ⟨u', m', hp', hq⟩
      obtain ⟨rfl, rfl⟩ := hp.unique hp'
      exact hq
    · exact fun hq => ⟨u, m₁, hp, hq⟩
  have leaves_iff : ctx.Leaves s (p ++ q) m v m₂ ↔ ctx.Leaves s q m₁ v m₂ := by
    rw [leaves_append_iff .nil]
    constructor
    · rintro (h | ⟨u', m', hp', hq⟩)
      · exact absurd h hp.not_leaves
      · obtain ⟨rfl, rfl⟩ := hp.unique hp'
        exact hq
    · exact fun hq => .inr ⟨u, m₁, hp, hq⟩
  rw [ends_iff, passes_iff, leaves_iff]
  constructor
  · rintro (h | h)
    · refine ⟨_, ends_iff.2 (.inl (h.from_last .nil)), ?_⟩
      cases h with
      | nil => rfl
      | cons => rfl
    · refine ⟨v, ends_iff.2 (.inr h), ?_⟩
      cases h <;> rfl
  · rintro ⟨w, h, rfl⟩
    rcases ends_iff.1 h with h | h
    · exact .inl (h.from_last u)
    · right
      cases h with
      | here hst => exact .here hst
      | later hst hu hrest => exact .later hst hu hrest

/-- Behind a program that was left nothing runs. -/
theorem Leaves.ends_append_iff (hp : ctx.Leaves s p m u m₁) :
    ctx.Ends s (p ++ q) m v m₂ ↔ v = u ∧ m₂ = m₁ := by
  have hpq : ctx.Leaves s (p ++ q) m u m₁ := (leaves_append_iff .nil).2 (.inl hp)
  rw [ends_iff]
  constructor
  · rintro (h | h)
    · exact absurd hpq h.not_leaves
    · exact h.unique hpq
  · rintro ⟨rfl, rfl⟩
    exact .inr hpq

end Context

/-! ## Sessions -/

theorem labelBlock_append (next : Nat) (p q : Block Unit) :
    labelBlock next (p ++ q) =
      ((labelBlock next p).1 ++ (labelBlock (labelBlock next p).2 q).1,
        (labelBlock (labelBlock next p).2 q).2) := by
  induction p generalizing next with
  | nil => rfl
  | cons st p ih =>
    rw [List.cons_append, labelBlock, labelBlock]
    dsimp only
    rw [ih]
    rfl

theorem labelBlock_eq_nil_iff {next : Nat} {p : Block Unit} :
    (labelBlock next p).1 = [] ↔ p = [] := by
  cases p with
  | nil => simp [labelBlock]
  | cons st p => simp [labelBlock]

namespace Session

def ran (session : Session) (program : Program) (m : Machine) : Session :=
  { session with machine := m, nextLabel := (program.label session.nextLabel).2 }

def holding (session : Session) (held : Array Fault) : Session :=
  { session with machine := session.machine.holding held }

def Ends (session : Session) (program : Program) (s : ScopeId) (v : Value) (after : Session) :
    Prop :=
  ∃ fuel, session.evaluate fuel program s = some (v, after)

def Passes (session : Session) (program : Program) (s : ScopeId) (v : Value) (after : Session) :
    Prop :=
  ∃ m, session.context.Passes s .nil (program.label session.nextLabel).1 session.machine v m ∧
    after = session.ran program m

def Leaves (session : Session) (program : Program) (s : ScopeId) (v : Value) (after : Session) :
    Prop :=
  ∃ m, session.context.Leaves s (program.label session.nextLabel).1 session.machine v m ∧
    after = session.ran program m

variable {session mid left after : Session} {p q : Program} {s : ScopeId} {u v : Value}

theorem ends_iff_exists : session.Ends p s v after ↔
    ∃ m, session.context.Ends s (p.label session.nextLabel).1 session.machine v m ∧
      after = session.ran p m := by
  constructor
  · rintro ⟨fuel, h⟩
    obtain ⟨⟨w, m⟩, hrun, hafter⟩ := Option.map_eq_some_iff.1 h
    cases hafter
    exact ⟨m, ⟨fuel, hrun⟩, rfl⟩
  · rintro ⟨m, ⟨fuel, hrun⟩, rfl⟩
    exact ⟨fuel, congrArg (Option.map _) hrun⟩

theorem ends_iff :
    session.Ends p s v after ↔ session.Passes p s v after ∨ session.Leaves p s v after := by
  simp only [ends_iff_exists, Context.ends_iff, Passes, Leaves, or_and_right, exists_or]

/-- A later program gets the numbers that the literals of the earlier one have left. -/
theorem ran_append (session : Session) (p q : Program) (m m' : Machine) :
    session.ran (p ++ q) m' = (session.ran p m).ran q m' := by
  simp only [ran, Program.label, labelBlock_append]

theorem Passes.ends_append_iff (h : session.Passes p s u mid) : session.Ends (p ++ q) s v after ↔
    ∃ w, mid.Ends q s w after ∧ v = if q = [] then u else w := by
  obtain ⟨m, hp, rfl⟩ := h
  rw [ends_iff_exists, Program.label, labelBlock_append]
  constructor
  · rintro ⟨m', hrun, rfl⟩
    obtain ⟨w, hq, rfl⟩ := hp.ends_append_iff.1 hrun
    refine ⟨w, ends_iff_exists.2 ⟨m', hq, session.ran_append p q m m'⟩, ?_⟩
    simp only [labelBlock_eq_nil_iff]
  · rintro ⟨w, hq, rfl⟩
    obtain ⟨m', hrun, rfl⟩ := ends_iff_exists.1 hq
    refine ⟨m', hp.ends_append_iff.2 ⟨w, hrun, ?_⟩, (session.ran_append p q m m').symm⟩
    simp only [labelBlock_eq_nil_iff]

theorem Leaves.ends_append_iff (h : session.Leaves p s u left) : session.Ends (p ++ q) s v after ↔
    v = u ∧ after = { left with nextLabel := ((p ++ q).label session.nextLabel).2 } := by
  obtain ⟨m, hp, rfl⟩ := h
  rw [ends_iff_exists]
  have hrun (m' : Machine) : session.context.Ends s ((p ++ q).label session.nextLabel).1
      session.machine v m' ↔ v = u ∧ m' = m := by
    rw [Program.label, labelBlock_append]
    exact hp.ends_append_iff
  simp only [hrun]
  constructor
  · rintro ⟨m', ⟨rfl, rfl⟩, rfl⟩
    exact ⟨rfl, rfl⟩
  · rintro ⟨rfl, rfl⟩
    exact ⟨m, ⟨rfl, rfl⟩, rfl⟩

theorem evaluate_holding (session : Session) (held : Array Fault) (fuel : Nat) (program : Program)
    (s : ScopeId) :
    (session.holding held).evaluate fuel program s =
      ((session.holding #[]).evaluate fuel program s).map fun r =>
        (r.1, r.2.holding (held ++ r.2.machine.faults)) := by
  simp only [evaluate, holding, evalProgram_holding fuel _ s session.machine held, Option.map_map]
  rfl

end Session

/-- A program that is run in two parts does what the whole of it does. The second part is run if no
statement of the first has a value on its way out, and the whole then ends if the second part ends,
in the same session and with its value, if there is one. If a statement of the first part has such
a value, then the whole is that part, but for the numbers of function literals that are not made.
Faults from before stay in front of those that are noted, and decide nothing. -/
theorem evaluation_splits (session : Session) (s : ScopeId) (p q : Program) :
    (∀ v after,
      session.Ends p s v after ↔ session.Passes p s v after ∨ session.Leaves p s v after) ∧
    (∀ u mid, session.Passes p s u mid → ∀ v after,
      session.Ends (p ++ q) s v after ↔
        ∃ w, mid.Ends q s w after ∧ v = if q = [] then u else w) ∧
    (∀ u left, session.Leaves p s u left → ∀ v after,
      session.Ends (p ++ q) s v after ↔
        v = u ∧ after = { left with nextLabel := ((p ++ q).label session.nextLabel).2 }) ∧
    ∀ held fuel, (session.holding held).evaluate fuel p s =
      ((session.holding #[]).evaluate fuel p s).map fun (v, after) =>
        (v, after.holding (held ++ after.machine.faults)) :=
  ⟨fun _ _ => Session.ends_iff, fun _ _ h _ _ => h.ends_append_iff,
    fun _ _ h _ _ => h.ends_append_iff, fun held fuel => session.evaluate_holding held fuel p s⟩

/-- A part that binds a name and notes a fault, and one that a `return` inside an operand leaves. -/
theorem evaluation_splits_at_return :
    let session := Session.start { options := {}, builtins := .standard, sink := .unlimited }
    let p : Program := [.var "x" (.int 1), .expr (.ident "y")]
    let q : Program :=
      [.expr (.infixOp .add (.int 1) (.cond (.ident "x") [.ret (.ident "x")] none))]
    ∃ mid left, session.Passes p 0 .nil mid ∧ mid.Leaves q 0 (.int 1) left ∧
      left.faults = [.unbound "y"] ∧ session.Ends (p ++ q) 0 (.int 1) left ∧
      ∀ v after, mid.Ends (q ++ p) 0 v after ↔ v = .int 1 ∧ after = left := by
  intro session p q
  let m₁ : Machine := ⟨⟨#[⟨none, [("x", .int 1)]⟩]⟩, .empty, .empty, #[]⟩
  let m : Machine := ⟨⟨#[⟨none, [("x", .int 1), ("y", .nil)]⟩]⟩, .empty, .empty, #[.unbound "y"]⟩
  have hx : session.context.Steps 0 (.var "x" (.int 1)) session.machine (.int 1) m₁ :=
    ⟨5, by with_unfolding_all rfl⟩
  have hy : session.context.Steps 0 (.expr (.ident "y")) m₁ .nil m :=
    ⟨5, by with_unfolding_all rfl⟩
  have hpass : session.Passes p 0 .nil (session.ran p m) :=
    ⟨m, .cons hx rfl (.cons hy rfl (.nil _ _)), rfl⟩
  have hleave : (session.ran p m).Leaves q 0 (.int 1) (session.ran p m) :=
    ⟨m, .here ⟨9, by with_unfolding_all rfl⟩, rfl⟩
  obtain ⟨hends, hpasses, -, -⟩ := evaluation_splits session 0 p q
  obtain ⟨hends', -, hleaves, -⟩ := evaluation_splits (session.ran p m) 0 q p
  refine ⟨_, _, hpass, hleave, rfl, ?_, hleaves _ _ hleave⟩
  exact (hpasses _ _ hpass _ _).2 ⟨_, (hends' _ _).2 (.inr hleave), rfl⟩

end Scriptlet
