import Mathlib.Data.Int.ModEq
import Scriptlet.Proofs.Indifference
import Scriptlet.Proofs.Operands

/-!
# Integers compute modulo a power of two

Sums, differences, products and negations are those of the numbers, up to a multiple of `2 ^ 64`.
Division truncates; its one quotient that does not fit wraps around as well, so that a quotient and
a remainder always give back what was divided. On the right of an operator truth values are one and
zero.
-/

namespace Scriptlet

/-! ## Integers and the numbers that they stand for -/

section

/-- The one integer that is a number modulo `2 ^ 64`. -/
def IsModulo (n : Int) (c : Int64) : Prop :=
  ∀ d : Int64, d.toInt ≡ n [ZMOD 2 ^ 64] ↔ d = c

variable {n : Int} {a b c : Int64}

theorem isModulo_of_bmod (h : c.toInt = n.bmod (2 ^ 64)) : IsModulo n c := by
  intro d
  constructor
  · intro hd
    have hmod : d.toInt.bmod (2 ^ 64) = n.bmod (2 ^ 64) := by
      rw [← Int.emod_bmod, ← Int.emod_bmod n]
      exact congrArg (Int.bmod · (2 ^ 64)) hd
    have hself : d.toInt.bmod (2 ^ 64) = d.toInt := Int64.toInt_bmod d
    exact Int64.toInt_inj.1 (by rw [← hself, hmod, h])
  · intro hd
    subst hd
    show d.toInt % 2 ^ 64 = n % 2 ^ 64
    rw [h]
    exact Int.bmod_emod

theorem toInt_modEq (h : c.toInt = n.bmod (2 ^ 64)) : c.toInt ≡ n [ZMOD 2 ^ 64] :=
  (isModulo_of_bmod h c).2 rfl

theorem toInt_ne_zero (hb : b ≠ 0) : b.toInt ≠ 0 := by
  intro h
  exact hb (Int64.toInt_inj.1 h)

theorem natAbs_remainder (hb : b ≠ 0) : (a % b).toInt.natAbs < b.toInt.natAbs := by
  have hpos : 0 < b.toInt.natAbs := Int.natAbs_pos.2 (toInt_ne_zero hb)
  rw [Int64.toInt_mod, Int.natAbs_tmod]
  exact Nat.mod_lt _ hpos

theorem sign_remainder (a b : Int64) : (a % b).toInt = 0 ∨ (a % b).toInt.sign = a.toInt.sign := by
  rw [Int64.toInt_mod]
  by_cases hdvd : b.toInt ∣ a.toInt
  · exact .inl (Int.tmod_eq_zero_of_dvd hdvd)
  · have hsign := Int.sign_tmod a.toInt b.toInt
    rw [if_neg hdvd] at hsign
    exact .inr hsign

theorem quotient_of_min : Int64.minValue / -1 = Int64.minValue := by
  decide

theorem toInt_quotient (h : a ≠ Int64.minValue ∨ b ≠ -1) :
    (a / b).toInt = a.toInt.tdiv b.toInt := by
  cases h with
  | inl ha => exact Int64.toInt_div_of_ne_left a b ha
  | inr hb => exact Int64.toInt_div_of_ne_right a b hb

/-- A quotient and a remainder give back what was divided, also where the quotient does not fit. -/
theorem quotient_mul_add_remainder (a b : Int64) : a / b * b + a % b = a := by
  have hquotient : (a / b).toInt ≡ a.toInt.tdiv b.toInt [ZMOD 2 ^ 64] :=
    toInt_modEq (Int64.toInt_div a b)
  have hproduct : (a / b * b).toInt ≡ (a / b).toInt * b.toInt [ZMOD 2 ^ 64] :=
    toInt_modEq (Int64.toInt_mul (a / b) b)
  have hsum : (a / b * b + a % b).toInt ≡ (a / b * b).toInt + (a % b).toInt [ZMOD 2 ^ 64] :=
    toInt_modEq (Int64.toInt_add (a / b * b) (a % b))
  have hback : (a / b * b + a % b).toInt ≡ a.toInt [ZMOD 2 ^ 64] :=
    calc (a / b * b + a % b).toInt
        ≡ (a / b * b).toInt + (a % b).toInt [ZMOD 2 ^ 64] := hsum
      _ ≡ (a / b).toInt * b.toInt + (a % b).toInt [ZMOD 2 ^ 64] := hproduct.add_right _
      _ ≡ a.toInt.tdiv b.toInt * b.toInt + (a % b).toInt [ZMOD 2 ^ 64] :=
          (hquotient.mul_right _).add_right _
      _ = a.toInt := by
          rw [Int64.toInt_mod, Int.mul_comm, Int.mul_tdiv_add_tmod]
  have hself : a.toInt = a.toInt.bmod (2 ^ 64) := (Int64.toInt_bmod a).symm
  exact (isModulo_of_bmod hself _).1 hback

end

/-! ## Truth values on the right -/

namespace Machine

variable {m : Machine} {op : InfixOp} {l : Value} {t : Bool}

theorem operate_truth_of_int (m : Machine) (op : InfixOp) (a : Int64) (t : Bool) :
    m.operate op (.int a) (.bool t) = m.operate op (.int a) (.int (if t then 1 else 0)) := rfl

/-- Next to a value that is no integer, a truth value is as true as its number. -/
theorem operate_truth_value (m : Machine) (op : InfixOp) (l : Value) (t : Bool) :
    (m.operate op l (.bool t)).1 = (m.operate op l (.int (if t then 1 else 0))).1 := by
  by_cases hl : ∃ a, l = .int a
  · obtain ⟨a, rfl⟩ := hl
    rw [operate_truth_of_int]
  · have happly (r : Value) (hr : ∀ text, r ≠ .str text) :
        op.apply m.lists l r = op.onTruths m.lists l r := by
      apply InfixOp.apply_of_others
      · intro hjoins
        obtain ⟨-, -, text, -, htext⟩ := hjoins
        exact hr text htext
      · intro a ha
        exact absurd ⟨a, ha⟩ hl
    unfold operate
    rw [happly _ (by simp), happly _ (by simp)]
    cases t <;> cases op <;> rfl

end Machine

/-! ## Evaluation -/

section

variable {ctx : Context} {fuel : Nat} {left right right' : Expr Nat} {s : ScopeId}
  {m₀ m₁ m : Machine} {a b : Int64} {t : Bool}

theorem evalExpr_truth (op : InfixOp)
    (hleft : evalExpr ctx fuel left s m₀ = some (.int a, m₁))
    (hright : evalExpr ctx fuel right s m₁ = some (.bool t, m))
    (hright' : evalExpr ctx fuel right' s m₁ = some (.int (if t then 1 else 0), m)) :
    evalExpr ctx (fuel + 1) (.infixOp op left right) s m₀ =
      evalExpr ctx (fuel + 1) (.infixOp op left right') s m₀ := by
  have htruthy : (Value.bool t).truthy m.lists =
      (Value.int (if t then 1 else 0)).truthy m.lists := by
    cases t <;> rfl
  by_cases hand : op = .and
  · subst hand
    rw [evalExpr, evalExpr, hleft, Outcome.andThen_of_pass rfl, Outcome.andThen_of_pass rfl, hright,
      hright', Outcome.andThen_of_pass rfl, Outcome.andThen_of_pass rfl, htruthy]
  by_cases hor : op = .or
  · subst hor
    rw [evalExpr, evalExpr, hleft, Outcome.andThen_of_pass rfl, Outcome.andThen_of_pass rfl, hright,
      hright', Outcome.andThen_of_pass rfl, Outcome.andThen_of_pass rfl, htruthy]
  · rw [evalExpr_infixOp hand hor, evalExpr_infixOp hand hor, hleft, Outcome.andThen_of_pass rfl,
      Outcome.andThen_of_pass rfl, hright, hright']
    rfl

theorem evalExpr_minus (hoperand : evalExpr ctx fuel right s m₀ = some (.int a, m)) :
    evalExpr ctx (fuel + 1) (.prefixOp .minus right) s m₀ = some (.int (-a), m) := by
  rw [evalExpr, hoperand]
  rfl

theorem operate_div (m : Machine) (hb : b ≠ 0) :
    m.operate .div (.int a) (.int b) = (.int (a / b), m) := by
  show m.settle (InfixOp.onIntegers .div a b) = _
  unfold InfixOp.onIntegers
  simp only [hb, if_false]
  rfl

theorem operate_mod (m : Machine) (hb : b ≠ 0) :
    m.operate .mod (.int a) (.int b) = (.int (a % b), m) := by
  show m.settle (InfixOp.onIntegers .mod a b) = _
  unfold InfixOp.onIntegers
  simp only [hb, if_false]
  rfl

/-- Evaluating a quotient times its divisor plus the remainder gives back what was divided. -/
theorem evalExpr_division (hleft : evalExpr ctx fuel left s m = some (.int a, m))
    (hright : evalExpr ctx fuel right s m = some (.int b, m)) (hb : b ≠ 0) {fuel' : Nat}
    (hfuel : fuel + 3 ≤ fuel') :
    evalExpr ctx fuel' (.infixOp .add (.infixOp .mul (.infixOp .div left right) right)
      (.infixOp .mod left right)) s m = some (.int a, m) := by
  have hdiv : evalExpr ctx (fuel + 1) (.infixOp .div left right) s m = some (.int (a / b), m) := by
    rw [evalExpr_operate hleft rfl hright rfl (by simp), operate_div m hb]
  have hmod : evalExpr ctx (fuel + 1) (.infixOp .mod left right) s m = some (.int (a % b), m) := by
    rw [evalExpr_operate hleft rfl hright rfl (by simp), operate_mod m hb]
  have hdivisor : evalExpr ctx (fuel + 1) right s m = some (.int b, m) :=
    evalExpr_of_le (by omega) hright
  have hmul : evalExpr ctx (fuel + 2) (.infixOp .mul (.infixOp .div left right) right) s m =
      some (.int (a / b * b), m) :=
    evalExpr_operate hdiv rfl hdivisor rfl (by simp)
  have hremainder : evalExpr ctx (fuel + 2) (.infixOp .mod left right) s m =
      some (.int (a % b), m) :=
    evalExpr_of_le (by omega) hmod
  have hadd : evalExpr ctx (fuel + 3) (.infixOp .add (.infixOp .mul (.infixOp .div left right)
      right) (.infixOp .mod left right)) s m = some (.int (a / b * b + a % b), m) :=
    evalExpr_operate hmul rfl hremainder rfl (by simp)
  rw [quotient_mul_add_remainder] at hadd
  exact evalExpr_of_le hfuel hadd

end

/-- Integer arithmetic is exact modulo `2 ^ 64`, and only zero as a divisor has no result. Sums,
differences, products and negations are the one integer that is the number modulo `2 ^ 64`. For a
divisor that is not zero the remainder is that of truncating division, and so is the quotient, but
for the least integer divided by `-1`; together they give back what was divided, however the
operands are written. On the right of an operator a truth value gives what `1` or `0` gives there:
the same value always, and next to an integer the same state too. -/
theorem integers_compute_modulo (a b : Int64) (m : Machine) :
    (∃ c, m.operate .add (.int a) (.int b) = (.int c, m) ∧ IsModulo (a.toInt + b.toInt) c) ∧
    (∃ c, m.operate .sub (.int a) (.int b) = (.int c, m) ∧ IsModulo (a.toInt - b.toInt) c) ∧
    (∃ c, m.operate .mul (.int a) (.int b) = (.int c, m) ∧ IsModulo (a.toInt * b.toInt) c) ∧
    (∃ c, m.settle (PrefixOp.minus.apply m.lists (.int a)) = (.int c, m) ∧
      IsModulo (-a.toInt) c ∧
      ∀ ctx fuel operand s m₀, evalExpr ctx fuel operand s m₀ = some (.int a, m) →
        evalExpr ctx (fuel + 1) (.prefixOp .minus operand) s m₀ = some (.int c, m)) ∧
    (b ≠ 0 → ∃ q r,
      m.operate .div (.int a) (.int b) = (.int q, m) ∧
      m.operate .mod (.int a) (.int b) = (.int r, m) ∧
      r.toInt = a.toInt.tmod b.toInt ∧ r.toInt.natAbs < b.toInt.natAbs ∧
      (r.toInt = 0 ∨ r.toInt.sign = a.toInt.sign) ∧
      (a = Int64.minValue → b = -1 → q = Int64.minValue) ∧
      (a ≠ Int64.minValue ∨ b ≠ -1 → q.toInt = a.toInt.tdiv b.toInt) ∧
      ∀ ctx fuel left right s, evalExpr ctx fuel left s m = some (.int a, m) →
        evalExpr ctx fuel right s m = some (.int b, m) →
        ∀ fuel', fuel + 3 ≤ fuel' →
          evalExpr ctx fuel' (.infixOp .add (.infixOp .mul (.infixOp .div left right) right)
            (.infixOp .mod left right)) s m = some (.int a, m)) ∧
    (b = 0 →
      m.operate .div (.int a) (.int b) = (.nil, m.note (.divisionByZero .div a)) ∧
      m.operate .mod (.int a) (.int b) = (.nil, m.note (.divisionByZero .mod a))) ∧
    (∀ op t, m.operate op (.int a) (.bool t) =
        m.operate op (.int a) (.int (if t then 1 else 0)) ∧
      ∀ l, (m.operate op l (.bool t)).1 = (m.operate op l (.int (if t then 1 else 0))).1) ∧
    (∀ ctx fuel op left right right' s m₀ m₁ t,
      evalExpr ctx fuel left s m₀ = some (.int a, m₁) →
      evalExpr ctx fuel right s m₁ = some (.bool t, m) →
      evalExpr ctx fuel right' s m₁ = some (.int (if t then 1 else 0), m) →
        evalExpr ctx (fuel + 1) (.infixOp op left right) s m₀ =
          evalExpr ctx (fuel + 1) (.infixOp op left right') s m₀) ∧
    ∀ ctx fuel op left right s m₀ m₁,
      evalExpr ctx fuel left s m₀ = some (.int a, m₁) →
      evalExpr ctx fuel right s m₁ = some (.int b, m) →
      (op = .and ∨ op = .or → m₁ = m) →
        evalExpr ctx (fuel + 1) (.infixOp op left right) s m₀ =
          some (m.operate op (.int a) (.int b)) := by
  refine ⟨⟨a + b, rfl, isModulo_of_bmod (Int64.toInt_add a b)⟩,
    ⟨a - b, rfl, isModulo_of_bmod (Int64.toInt_sub a b)⟩,
    ⟨a * b, rfl, isModulo_of_bmod (Int64.toInt_mul a b)⟩,
    ⟨-a, rfl, isModulo_of_bmod (Int64.toInt_neg a), ?minus⟩, ?divided, ?zero, ?truth, ?truthExpr,
    ?evaluated⟩
  case minus =>
    intro ctx fuel operand s m₀ hoperand
    exact evalExpr_minus hoperand
  case divided =>
    intro hb
    refine ⟨a / b, a % b, operate_div m hb, operate_mod m hb, Int64.toInt_mod a b,
      natAbs_remainder hb, sign_remainder a b, ?_, toInt_quotient, ?_⟩
    · intro ha hb
      rw [ha, hb]
      exact quotient_of_min
    · intro ctx fuel left right s hleft hright fuel' hfuel
      exact evalExpr_division hleft hright hb hfuel
  case zero =>
    intro hb
    subst hb
    exact ⟨rfl, rfl⟩
  case truth =>
    intro op t
    exact ⟨m.operate_truth_of_int op a t, fun l => m.operate_truth_value op l t⟩
  case truthExpr =>
    intro ctx fuel op left right right' s m₀ m₁ t hleft hright hright'
    exact evalExpr_truth op hleft hright hright'
  case evaluated =>
    intro ctx fuel op left right s m₀ m₁ hleft hright hlogic
    exact evalExpr_operate hleft rfl hright rfl hlogic

end Scriptlet
