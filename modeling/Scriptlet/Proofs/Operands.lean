import Scriptlet.Proofs.Upkeep

/-!
# What operators do to operands

Between any two values an operator gives a value, or there is exactly one of two reasons why not:
it divides by zero, or it needs a number where there is none. Numbers are integers, and on the right
of an integer truth values as well. The rule is stated without the order in which operands are
told apart (`InfixOp.Results`).
-/

namespace Scriptlet

/-- The number that a value counts as on the right of an integer, if it is one. -/
def Value.number? : Value → Option Int64
  | int n => some n
  | bool b => some (truthInt b)
  | _ => none

theorem Value.number?_eq_zero_iff {v : Value} :
    v.number? = some 0 ↔ v = .int 0 ∨ v = .bool false := by
  cases v with
  | bool b => cases b <;> simp [number?, truthInt]
  | _ => simp [number?]

theorem Value.number?_eq_none_iff {v : Value} :
    v.number? = none ↔ (∀ n, v ≠ .int n) ∧ ∀ b, v ≠ .bool b := by
  cases v <;> simp [number?]

namespace InfixOp

def isArithmetic : InfixOp → Bool
  | add | sub | mul | div | mod => true
  | _ => false

def isOrder : InfixOp → Bool
  | lt | gt | le | ge => true
  | _ => false

/-- An integer is divided by zero, or by false, which counts as zero. -/
def DividesByZero (op : InfixOp) (l r : Value) : Prop :=
  (op = div ∨ op = mod) ∧ (∃ n, l = .int n) ∧ (r = .int 0 ∨ r = .bool false)

def Joins (op : InfixOp) (l r : Value) : Prop :=
  op = add ∧ ∃ a b, l = .str a ∧ r = .str b

def Mismatches (op : InfixOp) (l r : Value) : Prop :=
  (op.isArithmetic = true ∨ op.isOrder = true) ∧
    ((∀ n, l ≠ .int n) ∨ (∀ n, r ≠ .int n) ∧ ∀ b, r ≠ .bool b) ∧ ¬op.Joins l r

/-- What becomes of two operands. -/
inductive Results (op : InfixOp) (l r : Value) : Except Fault Value → Prop
  | divides {n : Int64} (h : op.DividesByZero l r) (hl : l = .int n) :
    Results op l r (.error (.divisionByZero op n))
  | mismatches (h : op.Mismatches l r) : Results op l r (.error (.infixOperands op l r))
  | number {n : Int64} (hzero : ¬op.DividesByZero l r) (hmatch : ¬op.Mismatches l r)
    (hop : op.isArithmetic = true) (hl : ∃ n, l = .int n) : Results op l r (.ok (.int n))
  | text {a b : String} (hop : op = add) (hl : l = .str a) (hr : r = .str b) :
    Results op l r (.ok (.str (a ++ b)))
  | truth {b : Bool} (hmatch : ¬op.Mismatches l r) (hop : op.isArithmetic = false) :
    Results op l r (.ok (.bool b))

variable {lists : Lists} {op : InfixOp} {l r : Value} {a b : Int64}

theorem DividesByZero.isArithmetic (h : op.DividesByZero l r) : op.isArithmetic = true := by
  obtain ⟨hop, -, -⟩ := h
  rcases hop with rfl | rfl <;> rfl

/-- An integer and a number are what every operator takes. -/
theorem not_mismatches_of_number (hl : l = .int a) (hr : r.number? = some b) :
    ¬op.Mismatches l r := by
  intro hmatch
  obtain ⟨-, hleft | hright, -⟩ := hmatch
  · exact hleft a hl
  · have hnone : r.number? = none := Value.number?_eq_none_iff.2 hright
    rw [hr] at hnone
    cases hnone

/-- Division by zero is between numbers. -/
theorem DividesByZero.not_mismatches (h : op.DividesByZero l r) : ¬op.Mismatches l r := by
  obtain ⟨-, ⟨n, hl⟩, hr⟩ := h
  have hzero : r.number? = some 0 := Value.number?_eq_zero_iff.2 hr
  exact not_mismatches_of_number hl hzero

theorem onIntegers_results (hl : l = .int a) (hr : r.number? = some b) :
    op.Results l r (op.onIntegers a b) := by
  have hmatch : ¬op.Mismatches l r := not_mismatches_of_number hl hr
  have hzero : b = 0 ↔ r = .int 0 ∨ r = .bool false := by
    rw [← Value.number?_eq_zero_iff, hr, Option.some_inj]
  cases op with
  | add | sub | mul => exact .number (by simp [DividesByZero]) hmatch rfl ⟨a, hl⟩
  | div | mod =>
    unfold onIntegers
    by_cases hb : b = 0
    · simp only [hb, if_true]
      exact .divides ⟨by simp, ⟨a, hl⟩, hzero.1 hb⟩ hl
    · simp only [hb, if_false]
      exact .number (fun h => hb (hzero.2 h.2.2)) hmatch rfl ⟨a, hl⟩
  | _ => exact .truth hmatch rfl

theorem onTruths_results (hjoins : ¬op.Joins l r)
    (hnumbers : ∀ a, l = .int a → r.number? = none) :
    op.Results l r (op.onTruths lists l r) := by
  have hoperands : (∀ n, l ≠ .int n) ∨ (∀ n, r ≠ .int n) ∧ ∀ b, r ≠ .bool b := by
    by_cases hl : ∃ n, l = .int n
    · obtain ⟨n, hl⟩ := hl
      exact .inr (Value.number?_eq_none_iff.1 (hnumbers n hl))
    · exact .inl (not_exists.1 hl)
  cases op with
  | eq | ne | and | or => exact .truth (by simp [Mismatches, isArithmetic, isOrder]) rfl
  | _ => exact .mismatches ⟨by simp [isArithmetic, isOrder], hoperands, hjoins⟩

theorem apply_of_number (hr : r.number? = some b) :
    op.apply lists (.int a) r = op.onIntegers a b := by
  cases r with
  | int n =>
    cases hr
    rfl
  | bool t =>
    cases hr
    rfl
  | _ => cases hr

theorem apply_of_others (hjoins : ¬op.Joins l r)
    (hnumbers : ∀ a, l = .int a → r.number? = none) :
    op.apply lists l r = op.onTruths lists l r := by
  unfold apply
  split
  next a b => exact if_neg fun hop => hjoins ⟨hop, a, b, rfl, rfl⟩
  next a b => cases hnumbers a rfl
  next a t => cases hnumbers a rfl
  · rfl

/-- Operands are two numbers, for every operator, or they are not, for every operator. -/
theorem apply_cases (lists : Lists) (l r : Value) :
    (∃ a b, l = .int a ∧ r.number? = some b ∧
      ∀ op : InfixOp, op.apply lists l r = op.onIntegers a b) ∨
    ((∀ a, l = .int a → r.number? = none) ∧
      ∀ op : InfixOp, ¬op.Joins l r → op.apply lists l r = op.onTruths lists l r) := by
  cases hr : r.number? with
  | none => exact .inr ⟨fun _ _ => rfl, fun op hjoins => apply_of_others hjoins fun _ _ => hr⟩
  | some b =>
    by_cases hl : ∃ a, l = .int a
    · obtain ⟨a, rfl⟩ := hl
      exact .inl ⟨a, b, rfl, rfl, fun op => apply_of_number hr⟩
    · have hothers (a : Int64) (ha : l = .int a) : r.number? = none := absurd ⟨a, ha⟩ hl
      refine .inr ⟨fun a ha => absurd ⟨a, ha⟩ hl, fun op hjoins => ?_⟩
      exact apply_of_others hjoins hothers

/-- The rule of operators. -/
theorem apply_results (lists : Lists) (op : InfixOp) (l r : Value) :
    op.Results l r (op.apply lists l r) := by
  by_cases hjoins : op.Joins l r
  · obtain ⟨rfl, a, b, rfl, rfl⟩ := hjoins
    exact .text rfl rfl rfl
  · rcases apply_cases lists l r with ⟨a, b, hl, hr, happly⟩ | ⟨hnumbers, happly⟩
    · rw [happly op]
      exact onIntegers_results hl hr
    · rw [happly op hjoins]
      exact onTruths_results hjoins hnumbers

/-- Where there is a value, neither reason against it applies. -/
theorem Results.of_ok {v : Value} (h : op.Results l r (.ok v)) :
    ¬op.DividesByZero l r ∧ ¬op.Mismatches l r ∧ v ≠ .nil ∧
      (op.isArithmetic = true → (∃ n, l = .int n) → ∃ n, v = .int n) ∧
      (∀ a b, op = add → l = .str a → r = .str b → v = .str (a ++ b)) ∧
      (op.isArithmetic = false → ∃ b, v = .bool b) := by
  cases h with
  | number hzero hmatch hop hl =>
    obtain ⟨n, rfl⟩ := hl
    simp [hzero, hmatch, hop]
  | text hop hl hr =>
    subst hop hl hr
    simp [DividesByZero, Mismatches, Joins, isArithmetic]
  | truth hmatch hop =>
    have hzero : ¬op.DividesByZero l r := by
      intro hzero
      have harith := hzero.isArithmetic
      rw [hop] at harith
      cases harith
    have hadd : op ≠ add := by
      rintro rfl
      cases hop
    simp [hzero, hmatch, hop, hadd]

/-- Where there is none, one of the reasons applies, and the fault is about it. -/
theorem Results.of_error {fault : Fault} (h : op.Results l r (.error fault)) :
    (op.DividesByZero l r ∧ ∃ n, l = .int n ∧ fault = .divisionByZero op n) ∨
      (op.Mismatches l r ∧ fault = .infixOperands op l r) := by
  cases h with
  | divides h hl => exact .inl ⟨h, _, hl, rfl⟩
  | mismatches h => exact .inr ⟨h, rfl⟩

/-! ## Comparison and logic -/

theorem not_joins (hop : op ≠ add) : ¬op.Joins l r :=
  fun h => hop h.1

/-- What is not equal is what does not compare as equal. -/
theorem apply_ne (lists : Lists) (l r : Value) :
    ∃ b, eq.apply lists l r = .ok (.bool b) ∧ ne.apply lists l r = .ok (.bool !b) := by
  rcases apply_cases lists l r with ⟨a, b, -, -, happly⟩ | ⟨-, happly⟩
  · refine ⟨decide (a = b), happly eq, ?_⟩
    rw [happly ne]
    simp [onIntegers]
  · refine ⟨l.truthy lists == r.truthy lists, happly eq (not_joins (by decide)), ?_⟩
    rw [happly ne (not_joins (by decide))]
    rfl

/-- A number counts as true if it is not zero, on the right as on the left. -/
theorem truthy_of_number (hr : r.number? = some b) : r.truthy lists = (b != 0) := by
  cases r with
  | int n =>
    cases hr
    rfl
  | bool t =>
    cases hr
    cases t <;> rfl
  | _ => cases hr

theorem apply_and (lists : Lists) (l r : Value) :
    and.apply lists l r = .ok (.bool (l.truthy lists && r.truthy lists)) := by
  rcases apply_cases lists l r with ⟨a, b, rfl, hr, happly⟩ | ⟨-, happly⟩
  · rw [happly and, truthy_of_number hr]
    rfl
  · exact happly and (not_joins (by decide))

theorem apply_or (lists : Lists) (l r : Value) :
    or.apply lists l r = .ok (.bool (l.truthy lists || r.truthy lists)) := by
  rcases apply_cases lists l r with ⟨a, b, rfl, hr, happly⟩ | ⟨-, happly⟩
  · rw [happly or, truthy_of_number hr]
    rfl
  · exact happly or (not_joins (by decide))

end InfixOp

def Machine.operate (m : Machine) (op : InfixOp) (l r : Value) : Value × Machine :=
  m.settle (op.apply m.lists l r)

/-- What is not on its way out is gone on with. -/
theorem Outcome.andThen_of_pass {v : Value} {m : Machine} {next : Value → Machine → Outcome}
    (hv : v.isReturned = false) : Outcome.andThen (some (v, m)) next = next v m := by
  have hgoes : ¬v.isReturned = true := by simp [hv]
  rw [Outcome.andThen_eq_bind, Option.bind_some, if_neg hgoes]

/-- An expression with an operator applies it to what its operands evaluate to. As `and` and `or`
may not look at their right operand, it must not do anything there. -/
theorem evalExpr_operate {ctx : Context} {fuel : Nat} {op : InfixOp} {left right : Expr Nat}
    {s : ScopeId} {m₀ m₁ m : Machine} {l r : Value}
    (hleft : evalExpr ctx fuel left s m₀ = some (l, m₁)) (hl : l.isReturned = false)
    (hright : evalExpr ctx fuel right s m₁ = some (r, m)) (hr : r.isReturned = false)
    (hlogic : op = .and ∨ op = .or → m₁ = m) :
    evalExpr ctx (fuel + 1) (.infixOp op left right) s m₀ = some (m.operate op l r) := by
  by_cases hand : op = .and
  · have hm := hlogic (.inl hand)
    subst hand hm
    rw [evalExpr, hleft, Outcome.andThen_of_pass hl, hright, Outcome.andThen_of_pass hr]
    unfold Machine.operate
    rw [InfixOp.apply_and]
    cases l.truthy m₁.lists <;> rfl
  by_cases hor : op = .or
  · have hm := hlogic (.inr hor)
    subst hor hm
    rw [evalExpr, hleft, Outcome.andThen_of_pass hl, hright, Outcome.andThen_of_pass hr]
    unfold Machine.operate
    rw [InfixOp.apply_or]
    cases l.truthy m₁.lists <;> rfl
  · rw [evalExpr_infixOp hand hor, hleft, Outcome.andThen_of_pass hl, hright,
      Outcome.andThen_of_pass hr]
    rfl

/-- Operators give up exactly where they have to. An operator changes nothing but the faults. It
gives nil and notes one fault if it divides by zero, and then the fault says so, or if it needs a
number where there is none, and then the fault holds both operands; and only then. Otherwise it
notes nothing: with an integer on its left arithmetic gives an integer, strings are joined, and all
other operators give a truth value, of which those of `!=`, `and` and `or` follow from `==` and from
what the operands count as. So it is for every expression with an operator. -/
theorem operators_degrade_exactly (m : Machine) (op : InfixOp) (l r : Value) :
    ∃ v m', m.operate op l r = (v, m') ∧
      (m'.scopes = m.scopes ∧ m'.lists = m.lists ∧ m'.console = m.console) ∧
      ((v = .nil ∧ ∃ fault, m'.faults = m.faults.push fault) ↔
        op.DividesByZero l r ∨ op.Mismatches l r) ∧
      (op.DividesByZero l r → ∃ n, l = .int n ∧ m' = m.note (.divisionByZero op n)) ∧
      (op.Mismatches l r → m' = m.note (.infixOperands op l r)) ∧
      (¬op.DividesByZero l r → ¬op.Mismatches l r → m' = m ∧
        (op.isArithmetic = true → (∃ n, l = .int n) → ∃ n, v = .int n) ∧
        (∀ a b, op = .add → l = .str a → r = .str b → v = .str (a ++ b)) ∧
        (op.isArithmetic = false → ∃ b, v = .bool b)) ∧
      (∃ b, m.operate .eq l r = (.bool b, m) ∧ m.operate .ne l r = (.bool !b, m)) ∧
      m.operate .and l r = (.bool (l.truthy m.lists && r.truthy m.lists), m) ∧
      m.operate .or l r = (.bool (l.truthy m.lists || r.truthy m.lists), m) ∧
      ∀ ctx fuel left right s m₀ m₁,
        evalExpr ctx fuel left s m₀ = some (l, m₁) → l.isReturned = false →
        evalExpr ctx fuel right s m₁ = some (r, m) → r.isReturned = false →
        (op = .and ∨ op = .or → m₁ = m) →
          evalExpr ctx (fuel + 1) (.infixOp op left right) s m₀ = some (v, m') := by
  have hequality : ∃ b, m.operate .eq l r = (.bool b, m) ∧ m.operate .ne l r = (.bool !b, m) := by
    obtain ⟨b, heq, hne⟩ := InfixOp.apply_ne m.lists l r
    exact ⟨b, congrArg m.settle heq, congrArg m.settle hne⟩
  have hand : m.operate .and l r = (.bool (l.truthy m.lists && r.truthy m.lists), m) :=
    congrArg m.settle (InfixOp.apply_and m.lists l r)
  have hor : m.operate .or l r = (.bool (l.truthy m.lists || r.truthy m.lists), m) :=
    congrArg m.settle (InfixOp.apply_or m.lists l r)
  have hresults := InfixOp.apply_results m.lists op l r
  refine ⟨(m.operate op l r).1, (m.operate op l r).2, rfl, ?kept, ?degrades, ?divides, ?mismatches,
    ?otherwise, hequality, hand, hor, ?evaluated⟩
  case evaluated =>
    intro ctx fuel left right s m₀ m₁ hleft hl hright hr hlogic
    exact evalExpr_operate hleft hl hright hr hlogic
  all_goals
    unfold Machine.operate
    generalize op.apply m.lists l r = result at hresults
  case kept => cases result <;> exact ⟨rfl, rfl, rfl⟩
  case degrades =>
    cases result with
    | ok v =>
      obtain ⟨hzero, hmatch, hv, -⟩ := hresults.of_ok
      simp [Machine.settle, hzero, hmatch, hv]
    | error fault =>
      have hreason : op.DividesByZero l r ∨ op.Mismatches l r :=
        hresults.of_error.imp And.left And.left
      exact ⟨fun _ => hreason, fun _ => ⟨rfl, fault, rfl⟩⟩
  case divides =>
    intro hzero
    cases result with
    | ok v => exact absurd hzero hresults.of_ok.1
    | error fault =>
      rcases hresults.of_error with ⟨-, n, hl, rfl⟩ | ⟨hmatch, -⟩
      · exact ⟨n, hl, rfl⟩
      · exact absurd hmatch hzero.not_mismatches
  case mismatches =>
    intro hmatch
    cases result with
    | ok v => exact absurd hmatch hresults.of_ok.2.1
    | error fault =>
      rcases hresults.of_error with ⟨hzero, -⟩ | ⟨-, rfl⟩
      · exact absurd hmatch hzero.not_mismatches
      · rfl
  case otherwise =>
    intro hzero hmatch
    cases result with
    | ok v =>
      obtain ⟨-, -, -, hvalue⟩ := hresults.of_ok
      exact ⟨rfl, hvalue⟩
    | error fault =>
      have hreason : op.DividesByZero l r ∨ op.Mismatches l r :=
        hresults.of_error.imp And.left And.left
      exact absurd hreason (not_or.2 ⟨hzero, hmatch⟩)

end Scriptlet
