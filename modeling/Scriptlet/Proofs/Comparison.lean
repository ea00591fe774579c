import Mathlib.Data.List.Forall2
import Scriptlet.Proofs.Invariants

/-!
# What makes values equal

Equal values have one form, and they differ at most in the addresses of lists and in what functions
of one label say. Read like this, equality is an equivalence at every depth, whatever the lists are.
-/

namespace Scriptlet

/-- Two values of one form and with the same content, given which lists are the same. -/
inductive Value.Matched (same : ListId → ListId → Prop) : Value → Value → Prop
  | atom {v : Value} (h : v.isAtom = true) : Matched same v v
  | list {a b : ListId} (h : same a b) : Matched same (.list a) (.list b)
  | func {f g : Closure} (hlabel : f.label = g.label) (hscope : f.scope = g.scope) :
    Matched same (.func f) (.func g)
  | returned {v w : Value} (h : Matched same v w) : Matched same (.returned v) (.returned w)

namespace Value.Matched

variable {same : ListId → ListId → Prop} {u v w : Value}

theorem refl (hsame : ∀ a, same a a) (v : Value) : v.Matched same v := by
  induction v with
  | list a => exact .list (hsame a)
  | func f => exact .func rfl rfl
  | returned v ih => exact .returned ih
  | _ => exact .atom rfl

theorem symm (hsame : ∀ a b, same a b → same b a) (h : v.Matched same w) : w.Matched same v := by
  induction h with
  | atom h => exact .atom h
  | list h => exact .list (hsame _ _ h)
  | func hlabel hscope => exact .func hlabel.symm hscope.symm
  | returned _ ih => exact .returned ih

theorem trans (hsame : ∀ a b c, same a b → same b c → same a c) (h : u.Matched same v)
    (h' : v.Matched same w) : u.Matched same w := by
  induction h generalizing w with
  | atom => exact h'
  | list h =>
    cases h' with
    | atom hatom => cases hatom
    | list h' => exact .list (hsame _ _ _ h h')
  | func hlabel hscope =>
    cases h' with
    | atom hatom => cases hatom
    | func hlabel' hscope' => exact .func (hlabel.trans hlabel') (hscope.trans hscope')
  | returned _ ih =>
    cases h' with
    | atom hatom => cases hatom
    | returned h' => exact .returned (ih h')

theorem kind_eq (h : v.Matched same w) : v.kind = w.kind := by
  induction h with
  | returned _ ih => exact ih
  | _ => rfl

end Value.Matched

theorem Value.equalWith_iff {same : ListId → ListId → Bool} {v w : Value} :
    v.equalWith same w = true ↔ v.Matched (fun a b => same a b = true) w := by
  constructor
  · intro h
    induction v generalizing w with
    | list a =>
      cases w with
      | list b => exact .list h
      | _ => cases h
    | func f =>
      cases w with
      | func g =>
        obtain ⟨hlabel, hscope⟩ := Bool.and_eq_true_iff.1 h
        exact .func (eq_of_beq hlabel) (eq_of_beq hscope)
      | _ => cases h
    | returned v ih =>
      cases w with
      | returned w => exact .returned (ih h)
      | _ => cases h
    | nil =>
      cases w with
      | nil => exact .atom rfl
      | _ => cases h
    | int a =>
      cases w with
      | int b => exact eq_of_beq (α := Int64) h ▸ .atom rfl
      | _ => cases h
    | bool a =>
      cases w with
      | bool b => exact eq_of_beq (α := Bool) h ▸ .atom rfl
      | _ => cases h
    | str a =>
      cases w with
      | str b => exact eq_of_beq (α := String) h ▸ .atom rfl
      | _ => cases h
    | builtin a =>
      cases w with
      | builtin b => exact eq_of_beq (α := String) h ▸ .atom rfl
      | _ => cases h
  · intro h
    induction h with
    | @atom v h =>
      cases v with
      | list | func | returned => cases h
      | nil => rfl
      | int a | bool a | str a | builtin a => exact beq_self_eq_true a
    | list h => exact h
    | func hlabel hscope => exact Bool.and_eq_true_iff.2 ⟨beq_iff_eq.2 hlabel, beq_iff_eq.2 hscope⟩
    | returned _ ih => exact ih

/-! ## Lists -/

section

variable {α : Type}

theorem isEqv_iff_forall₂ {same : α → α → Bool} {as bs : List α} :
    as.isEqv bs same = true ↔ List.Forall₂ (fun a b => same a b = true) as bs := by
  induction as generalizing bs with
  | nil => cases bs <;> simp
  | cons a as ih => cases bs <;> simp [List.isEqv_cons_cons, ih]

theorem forall₂_trans {R : α → α → Prop} (hR : ∀ a b c, R a b → R b c → R a c) {as bs cs : List α}
    (h : List.Forall₂ R as bs) (h' : List.Forall₂ R bs cs) : List.Forall₂ R as cs := by
  induction h generalizing cs with
  | nil => exact h'
  | cons hab _ ih =>
    cases h' with
    | cons hbc h' => exact .cons (hR _ _ _ hab hbc) (ih h')

end

namespace Lists

variable {lists : Lists} {depth : Nat} {a b c : ListId}

theorem equal_succ_iff : lists.equal (depth + 1) a b = true ↔
    List.Forall₂ (Value.Matched fun c d => lists.equal depth c d = true) (lists.elements a)
      (lists.elements b) := by
  rw [equal, isEqv_iff_forall₂]
  simp only [Value.equalWith_iff]

theorem equal_refl (lists : Lists) (depth : Nat) (a : ListId) : lists.equal depth a a = true := by
  induction depth generalizing a with
  | zero => exact beq_self_eq_true a
  | succ depth ih => exact equal_succ_iff.2 (List.forall₂_same.2 fun v _ => .refl ih v)

theorem equal_symm (h : lists.equal depth a b = true) : lists.equal depth b a = true := by
  induction depth generalizing a b with
  | zero => exact beq_iff_eq.2 (eq_of_beq h).symm
  | succ depth ih =>
    have h := equal_succ_iff.1 h
    exact equal_succ_iff.2 (h.imp fun _ _ h => h.symm fun _ _ => ih).flip

theorem equal_trans (h : lists.equal depth a b = true) (h' : lists.equal depth b c = true) :
    lists.equal depth a c = true := by
  induction depth generalizing a b c with
  | zero => exact beq_iff_eq.2 ((eq_of_beq h).trans (eq_of_beq h'))
  | succ depth ih =>
    exact equal_succ_iff.2 (forall₂_trans (fun _ _ _ h h' => h.trans (fun _ _ _ => ih) h')
      (equal_succ_iff.1 h) (equal_succ_iff.1 h'))

/-- Equal lists are both empty or neither is. -/
theorem isEmpty_eq_of_equal (h : lists.equal depth a b = true) :
    (lists.elements a).isEmpty = (lists.elements b).isEmpty := by
  cases depth with
  | zero => rw [eq_of_beq (α := Nat) h]
  | succ depth =>
    have h := equal_succ_iff.1 h
    generalize lists.elements a = vs, lists.elements b = ws at h
    cases h <;> rfl

end Lists

namespace Value

variable {lists : Lists} {u v w : Value}

theorem equal_iff : v.equal lists w = true ↔
    v.Matched (fun a b => lists.equal lists.size a b = true) w :=
  equalWith_iff

theorem equal_refl (lists : Lists) (v : Value) : v.equal lists v = true :=
  equal_iff.2 (.refl (lists.equal_refl _) v)

theorem equal_symm (h : v.equal lists w = true) : w.equal lists v = true :=
  equal_iff.2 ((equal_iff.1 h).symm fun _ _ => Lists.equal_symm)

theorem equal_trans (h : u.equal lists v = true) (h' : v.equal lists w = true) :
    u.equal lists w = true :=
  equal_iff.2 ((equal_iff.1 h).trans (fun _ _ _ => Lists.equal_trans) (equal_iff.1 h'))

/-- Equal values count as the same truth value. -/
theorem truthy_eq_of_equal (h : v.equal lists w = true) : v.truthy lists = w.truthy lists := by
  rw [equal_iff] at h
  induction h with
  | list h => rw [truthy, truthy, Lists.isEmpty_eq_of_equal h]
  | returned _ ih => exact ih
  | _ => rfl

end Value

end Scriptlet
