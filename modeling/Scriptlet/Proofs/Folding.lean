import Mathlib.Order.Defs.PartialOrder
import Scriptlet.Proofs.Likeness
import Scriptlet.Proofs.Scoping

/-!
# Scopes that make no difference

A forest of scopes with extra ones in it, which bind nothing and lie between other scopes. Each
extra scope folds onto what the scope around it folds onto. Then ways outwards in the two forests
are the same but for extra scopes, so names mean corresponding things and have corresponding
outermost scopes; and that stays so when names get bound and scopes are added.
-/

namespace Scriptlet

/-- How the scopes of a forest, `size` of them, fold onto those of another. -/
structure Folding where
  size : Nat
  home : ScopeId → ScopeId
  /-- Whether a scope is one of the extra ones. -/
  extra : ScopeId → Bool

namespace Folding

def identity (size : Nat) : Folding :=
  ⟨size, id, fun _ => false⟩

def add (φ : Folding) (home : ScopeId) (extra : Bool) : Folding where
  size := φ.size + 1
  home t := if t = φ.size then home else φ.home t
  extra t := if t = φ.size then extra else φ.extra t

/-- A scope of the first forest is what one of the second folds onto. -/
def Stands (φ : Folding) (s t : ScopeId) : Prop :=
  t < φ.size ∧ s = φ.home t

/-- A folding is a later one if it folds the same scopes in the same way, and maybe more. -/
instance : Preorder Folding where
  le φ ψ := φ.size ≤ ψ.size ∧ ∀ t < φ.size, ψ.home t = φ.home t ∧ ψ.extra t = φ.extra t
  le_refl _ := ⟨Nat.le_refl _, fun _ _ => ⟨rfl, rfl⟩⟩
  le_trans φ ψ χ h h' := by
    refine ⟨Nat.le_trans h.1 h'.1, fun t ht => ?_⟩
    obtain ⟨hhome, hextra⟩ := h.2 t ht
    obtain ⟨hhome', hextra'⟩ := h'.2 t (Nat.lt_of_lt_of_le ht h.1)
    exact ⟨hhome'.trans hhome, hextra'.trans hextra⟩

variable {φ ψ : Folding} {s t : ScopeId}

theorem Stands.mono (h : φ.Stands s t) (hφ : φ ≤ ψ) : ψ.Stands s t :=
  ⟨Nat.lt_of_lt_of_le h.1 hφ.1, h.2.trans (hφ.2 t h.1).1.symm⟩

theorem home_add_of_lt (φ : Folding) (home : ScopeId) (extra : Bool) (ht : t < φ.size) :
    (φ.add home extra).home t = φ.home t :=
  if_neg (Nat.ne_of_lt ht)

theorem extra_add_of_lt (φ : Folding) (home : ScopeId) (extra : Bool) (ht : t < φ.size) :
    (φ.add home extra).extra t = φ.extra t :=
  if_neg (Nat.ne_of_lt ht)

@[simp] theorem home_add_self (φ : Folding) (home : ScopeId) (extra : Bool) :
    (φ.add home extra).home φ.size = home :=
  if_pos rfl

@[simp] theorem extra_add_self (φ : Folding) (home : ScopeId) (extra : Bool) :
    (φ.add home extra).extra φ.size = extra :=
  if_pos rfl

theorem le_add (φ : Folding) (home : ScopeId) (extra : Bool) : φ ≤ φ.add home extra := by
  refine ⟨Nat.le_succ _, fun t ht => ?_⟩
  exact ⟨home_add_of_lt φ home extra ht, extra_add_of_lt φ home extra ht⟩

end Folding

structure Scopes.Folds (φ : Folding) (scopes unfolded : Scopes) : Prop where
  size_eq : unfolded.size = φ.size
  home_lt : ∀ t < φ.size, φ.home t < scopes.size
  older : ∀ t o, unfolded.outer? t = some o → o < t
  injective : ∀ t < φ.size, ∀ u < φ.size, φ.extra t = false → φ.extra u = false →
    φ.home t = φ.home u → t = u
  extra_own? : ∀ t < φ.size, φ.extra t = true → ∀ name, unfolded.own? t name = none
  extra_outer? : ∀ t < φ.size, φ.extra t = true →
    ∃ o, unfolded.outer? t = some o ∧ φ.home o = φ.home t
  own? : ∀ t < φ.size, φ.extra t = false → ∀ name,
    Option.Rel (Value.Alike φ.Stands) (scopes.own? (φ.home t) name) (unfolded.own? t name)
  outer? : ∀ t < φ.size, φ.extra t = false →
    Option.Rel φ.Stands (scopes.outer? (φ.home t)) (unfolded.outer? t)

namespace Scopes.Folds

variable {φ : Folding} {scopes unfolded : Scopes} {s t : ScopeId} {name : String}

/-! ## Lookups -/

/-- A way outwards is the same but for extra scopes, and it ends in a scope that is not one. -/
theorem path (h : scopes.Folds φ unfolded) (ht : t < φ.size) :
    ∃ before last, unfolded.Path t (before ++ [last]) ∧ φ.extra last = false ∧
      scopes.Path (φ.home t) (((before ++ [last]).filter (!φ.extra ·)).map φ.home) := by
  -- on the scope, as the one around it is older
  induction t using Nat.strongRecOn with
  | ind t ih =>
    by_cases hextra : φ.extra t = true
    · obtain ⟨o, ho, hhome⟩ := h.extra_outer? t ht hextra
      have hlt := h.older t o ho
      obtain ⟨before, last, hpath, hlast, hfolded⟩ := ih o hlt (Nat.lt_trans hlt ht)
      refine ⟨t :: before, last, .step ho hpath, hlast, ?_⟩
      simpa [hextra, hhome] using hfolded
    · have hkept : φ.extra t = false := by simpa using hextra
      have houter := h.outer? t ht hkept
      have hlt := h.home_lt t ht
      cases ho : scopes.outer? (φ.home t) with
      | none =>
        rw [ho] at houter
        cases ho' : unfolded.outer? t with
        | some => rw [ho'] at houter; cases houter
        | none =>
          refine ⟨[], t, .root (h.size_eq ▸ ht) ho', hkept, ?_⟩
          simpa [hkept] using Path.root hlt ho
      | some o =>
        rw [ho] at houter
        cases ho' : unfolded.outer? t with
        | none => rw [ho'] at houter; cases houter
        | some o' =>
          rw [ho'] at houter
          cases houter with
          | some hstands =>
            have hlt' := h.older t o' ho'
            obtain ⟨before, last, hpath, hlast, hfolded⟩ := ih o' hlt' hstands.1
            refine ⟨t :: before, last, .step ho' hpath, hlast, ?_⟩
            rw [← hstands.2] at hfolded
            simpa [hkept] using Path.step ho hfolded

/-- Ways outwards are the same but for extra scopes. -/
theorem chain_eq (h : scopes.Folds φ unfolded) (ht : t < φ.size) :
    scopes.chain (φ.home t) = ((unfolded.chain t).filter (!φ.extra ·)).map φ.home := by
  obtain ⟨before, last, hpath, -, hfolded⟩ := h.path ht
  rw [hpath.chain_eq, hfolded.chain_eq]

/-- Outermost scopes are no extra ones, and one folds onto the other. -/
theorem root (h : scopes.Folds φ unfolded) (hst : φ.Stands s t) :
    φ.Stands (scopes.root s) (unfolded.root t) ∧ φ.extra (unfolded.root t) = false := by
  obtain ⟨ht, rfl⟩ := hst
  obtain ⟨before, last, hpath, hlast, hfolded⟩ := h.path ht
  have hroot : unfolded.root t = last := by simp [Scopes.root, hpath.chain_eq]
  have hroot' : scopes.root (φ.home t) = φ.home last := by
    simp [Scopes.root, hfolded.chain_eq, hlast]
  have hlt : last < φ.size := h.size_eq ▸ hpath.lt_size last (by simp)
  rw [hroot, hroot']
  exact ⟨⟨hlt, rfl⟩, hlast⟩

/-- A name means corresponding things, as extra scopes bind nothing. -/
theorem get? (h : scopes.Folds φ unfolded) (hst : φ.Stands s t) (name : String) :
    Option.Rel (Value.Alike φ.Stands) (scopes.get? s name) (unfolded.get? t name) := by
  obtain ⟨ht, rfl⟩ := hst
  rw [Scopes.get?, Scopes.get?, h.chain_eq ht]
  obtain ⟨before, last, hpath, -⟩ := h.path ht
  have hlt (u : ScopeId) (hu : u ∈ unfolded.chain t) : u < φ.size :=
    h.size_eq ▸ hpath.lt_size u (hpath.chain_eq ▸ hu)
  generalize unfolded.chain t = l at hlt ⊢
  induction l with
  | nil => exact .none
  | cons u l ih =>
    have hu := hlt u List.mem_cons_self
    have hrest := ih fun v hv => hlt v (List.mem_cons_of_mem _ hv)
    by_cases hextra : φ.extra u = true
    · simpa [hextra, h.extra_own? u hu hextra] using hrest
    · have hkept : φ.extra u = false := by simpa using hextra
      have hown := h.own? u hu hkept name
      simp only [hkept, Bool.not_false, List.filter_cons_of_pos, List.map_cons,
        List.findSome?_cons]
      generalize scopes.own? (φ.home u) name = v, unfolded.own? u name = v' at hown ⊢
      cases hown with
      | none => exact hrest
      | some hv => exact .some hv

/-! ## Changes -/

theorem set (h : scopes.Folds φ unfolded) (hst : φ.Stands s t) (hkept : φ.extra t = false)
    {v v' : Value} (hv : v.Alike φ.Stands v') (name : String) :
    (scopes.set s name v).Folds φ (unfolded.set t name v') := by
  obtain ⟨ht, rfl⟩ := hst
  refine ⟨by simpa using h.size_eq, by simpa using h.home_lt, by simpa using h.older, h.injective,
    fun u hu hextra other => ?_, by simpa using h.extra_outer?, fun u hu hkept' other => ?_,
    by simpa using h.outer?⟩
  · have hne : u ≠ t := fun heq => by simp [heq, hkept] at hextra
    rw [own?_set, if_neg fun hset => hne hset.1]
    exact h.extra_own? u hu hextra other
  · rw [own?_set, own?_set]
    by_cases hset : u = t ∧ other = name
    · obtain ⟨rfl, rfl⟩ := hset
      rw [if_pos ⟨rfl, h.home_lt u hu, rfl⟩, if_pos ⟨rfl, h.size_eq ▸ hu, rfl⟩]
      exact .some hv
    · have hset' : ¬(φ.home u = φ.home t ∧ φ.home t < scopes.size ∧ other = name) :=
        fun hsame => hset ⟨h.injective u hu t ht hkept' hkept hsame.1, hsame.2.2⟩
      rw [if_neg hset', if_neg fun hsame => hset ⟨hsame.1, hsame.2.2⟩]
      exact h.own? u hu hkept' other

/-- A scope is added to the second forest. It folds onto a new scope of the first one that binds
corresponding things, or it is an extra one. -/
theorem grow (h : scopes.Folds φ unfolded) (hst : φ.Stands s t) {scopes' : Scopes}
    {home : ScopeId} {extra : Bool} {bindings : Bindings} (hsize : scopes.size ≤ scopes'.size)
    (hown : ∀ u < scopes.size, ∀ name, scopes'.own? u name = scopes.own? u name)
    (houter : ∀ u < scopes.size, scopes'.outer? u = scopes.outer? u) (hhome : home < scopes'.size)
    (hextra : extra = true → bindings = [] ∧ home = s)
    (hkept : extra = false → scopes.size ≤ home ∧ scopes'.outer? home = some s ∧
      ∀ name, Option.Rel (Value.Alike φ.Stands) (scopes'.own? home name) (bindings.lookup name)) :
    scopes'.Folds (φ.add home extra) (unfolded.add ⟨some t, bindings⟩) := by
  have hlater := φ.le_add home extra
  have hne {u : ScopeId} (hu : u < φ.size) : u ≠ unfolded.size :=
    Nat.ne_of_lt (h.size_eq ▸ hu)
  have hrel {o o' : Option Value} (ho : Option.Rel (Value.Alike φ.Stands) o o') :
      Option.Rel (Value.Alike (φ.add home extra).Stands) o o' := by
    cases ho with
    | none => exact .none
    | some hv => exact .some (hv.mono fun _ _ hst => hst.mono hlater)
  constructor
  case size_eq => simp [h.size_eq, Folding.add]
  case home_lt =>
    intro u hu
    rcases Nat.lt_succ_iff_lt_or_eq.1 hu with hu | rfl
    · rw [φ.home_add_of_lt home extra hu]
      exact Nat.lt_of_lt_of_le (h.home_lt u hu) hsize
    · simpa using hhome
  case older =>
    intro u o ho
    rw [outer?_add] at ho
    split at ho
    next heq =>
      cases ho
      rw [heq, h.size_eq]
      exact hst.1
    next => exact h.older u o ho
  case injective =>
    intro u hu v hv hu' hv' heq
    rcases Nat.lt_succ_iff_lt_or_eq.1 hu with hu | rfl <;>
      rcases Nat.lt_succ_iff_lt_or_eq.1 hv with hv | rfl
    · simp only [φ.home_add_of_lt home extra, φ.extra_add_of_lt home extra, hu, hv] at hu' hv' heq
      exact h.injective u hu v hv hu' hv' heq
    · simp only [φ.home_add_of_lt home extra hu, Folding.home_add_self] at heq
      simp only [Folding.extra_add_self] at hv'
      exact absurd heq (Nat.ne_of_lt (Nat.lt_of_lt_of_le (h.home_lt u hu) (hkept hv').1))
    · simp only [φ.home_add_of_lt home extra hv, Folding.home_add_self] at heq
      simp only [Folding.extra_add_self] at hu'
      exact absurd heq.symm (Nat.ne_of_lt (Nat.lt_of_lt_of_le (h.home_lt v hv) (hkept hu').1))
    · rfl
  case extra_own? =>
    intro u hu hu' name
    rw [own?_add]
    rcases Nat.lt_succ_iff_lt_or_eq.1 hu with hu | rfl
    · rw [φ.extra_add_of_lt home extra hu] at hu'
      rw [if_neg (hne hu)]
      exact h.extra_own? u hu hu' name
    · simp only [Folding.extra_add_self] at hu'
      rw [if_pos h.size_eq.symm, (hextra hu').1]
      rfl
  case extra_outer? =>
    intro u hu hu'
    rw [outer?_add]
    rcases Nat.lt_succ_iff_lt_or_eq.1 hu with hu | rfl
    · rw [φ.extra_add_of_lt home extra hu] at hu'
      obtain ⟨o, ho, heq⟩ := h.extra_outer? u hu hu'
      have hlt : o < φ.size := Nat.lt_trans (h.older u o ho) hu
      rw [if_neg (hne hu), φ.home_add_of_lt home extra hu]
      exact ⟨o, ho, by rw [φ.home_add_of_lt home extra hlt, heq]⟩
    · simp only [Folding.extra_add_self] at hu'
      rw [if_pos h.size_eq.symm, Folding.home_add_self, (hextra hu').2]
      exact ⟨t, rfl, by rw [φ.home_add_of_lt s extra hst.1, hst.2]⟩
  case own? =>
    intro u hu hu' name
    rw [own?_add]
    rcases Nat.lt_succ_iff_lt_or_eq.1 hu with hu | rfl
    · rw [φ.extra_add_of_lt home extra hu] at hu'
      rw [if_neg (hne hu), φ.home_add_of_lt home extra hu, hown _ (h.home_lt u hu)]
      exact hrel (h.own? u hu hu' name)
    · simp only [Folding.extra_add_self] at hu'
      rw [if_pos h.size_eq.symm, Folding.home_add_self]
      exact hrel ((hkept hu').2.2 name)
  case outer? =>
    intro u hu hu'
    rw [outer?_add]
    rcases Nat.lt_succ_iff_lt_or_eq.1 hu with hu | rfl
    · rw [φ.extra_add_of_lt home extra hu] at hu'
      rw [if_neg (hne hu), φ.home_add_of_lt home extra hu, houter _ (h.home_lt u hu)]
      have hold := h.outer? u hu hu'
      generalize scopes.outer? (φ.home u) = o, unfolded.outer? u = o' at hold ⊢
      cases hold with
      | none => exact .none
      | some hst => exact .some (hst.mono hlater)
    · simp only [Folding.extra_add_self] at hu'
      rw [if_pos h.size_eq.symm, Folding.home_add_self, (hkept hu').2.1]
      exact .some (hst.mono hlater)

/-- A scope is added to each of the forests. -/
theorem add (h : scopes.Folds φ unfolded) (hst : φ.Stands s t) {bindings bindings' : Bindings}
    (hbindings : bindings.Alike φ.Stands bindings') :
    (scopes.add ⟨some s, bindings⟩).Folds (φ.add scopes.size false)
      (unfolded.add ⟨some t, bindings'⟩) := by
  have hne {u : ScopeId} (hu : u < scopes.size) : u ≠ scopes.size := Nat.ne_of_lt hu
  refine h.grow hst (by simp) (fun u hu name => ?_) (fun u hu => ?_) (by simp) (fun hextra => ?_)
    fun _ => ⟨Nat.le_refl _, ?_, fun name => ?_⟩
  · rw [own?_add, if_neg (hne hu)]
  · rw [outer?_add, if_neg (hne hu)]
  · cases hextra
  · rw [outer?_add, if_pos rfl]
  · rw [own?_add, if_pos rfl]
    exact hbindings name

/-- A scope that binds nothing is added to the second forest only. -/
theorem addExtra (h : scopes.Folds φ unfolded) (hst : φ.Stands s t) :
    scopes.Folds (φ.add s true) (unfolded.add ⟨some t, []⟩) := by
  have hlt : s < scopes.size := hst.2 ▸ h.home_lt t hst.1
  refine h.grow hst (Nat.le_refl _) (fun _ _ _ => rfl) (fun _ _ => rfl) hlt
    (fun _ => ⟨rfl, rfl⟩) fun hkept => ?_
  cases hkept

end Scopes.Folds

end Scriptlet
