import Mathlib.Data.List.Forall2
import Scriptlet.Proofs.Invariants

/-!
# Values up to captured scopes

Programs cannot see which scope a function captured: not in the text, the kind or the truth of a
value, and not by operators, indexing or the standard built-in functions. All of these treat values
alike that differ in captured scopes only, in whatever way the scopes correspond.
-/

namespace Scriptlet

variable {R R' : ScopeId → ScopeId → Prop}

/-- Two values that are the same but for captured scopes, and those correspond. -/
inductive Value.Alike (R : ScopeId → ScopeId → Prop) : Value → Value → Prop
  | atom {v : Value} (h : v.isAtom = true) : Alike R v v
  | list (a : ListId) : Alike R (.list a) (.list a)
  | func {s t : ScopeId} (h : R s t) (label : Nat) (params : List String) (body : Code) :
      Alike R (.func ⟨label, params, body, s⟩) (.func ⟨label, params, body, t⟩)
  | returned {v w : Value} (h : Alike R v w) : Alike R (.returned v) (.returned w)

structure Lists.Alike (R : ScopeId → ScopeId → Prop) (lists lists' : Lists) : Prop where
  size_eq : lists.size = lists'.size
  elements : ∀ a, List.Forall₂ (Value.Alike R) (lists.elements a) (lists'.elements a)

inductive Fault.Alike (R : ScopeId → ScopeId → Prop) : Fault → Fault → Prop
  | plain {fault : Fault} (h : fault.values = []) : Alike R fault fault
  | prefixOperand (op : PrefixOp) {v v' : Value} (h : v.Alike R v') :
      Alike R (.prefixOperand op v) (.prefixOperand op v')
  | infixOperands (op : InfixOp) {l l' r r' : Value} (hl : l.Alike R l') (hr : r.Alike R r') :
      Alike R (.infixOperands op l r) (.infixOperands op l' r')
  | notAFunction {v v' : Value} (h : v.Alike R v') : Alike R (.notAFunction v) (.notAFunction v')
  | argument (builtin : String) {v v' : Value} (h : v.Alike R v') :
      Alike R (.argument builtin v) (.argument builtin v')
  | indexTarget {v v' : Value} (h : v.Alike R v') : Alike R (.indexTarget v) (.indexTarget v')
  | indexOperand {v v' : Value} (h : v.Alike R v') : Alike R (.indexOperand v) (.indexOperand v')
  | indexRange {v v' : Value} (h : v.Alike R v') (position : Int64) :
      Alike R (.indexRange v position) (.indexRange v' position)

/-! ## What can be seen -/

namespace Value.Alike

variable {lists lists' : Lists} {v w : Value}

theorem mono (h : v.Alike R w) (hR : ∀ s t, R s t → R' s t) : v.Alike R' w := by
  induction h with
  | atom h => exact .atom h
  | list a => exact .list a
  | func h label params body => exact .func (hR _ _ h) label params body
  | returned _ ih => exact .returned ih

theorem refl (hR : ∀ s, R s s) (v : Value) : v.Alike R v := by
  induction v with
  | list a => exact .list a
  | func c => exact .func (hR c.scope) c.label c.params c.body
  | returned v ih => exact .returned ih
  | _ => exact .atom rfl

theorem arrived (h : v.Alike R w) : v.arrived.Alike R w.arrived := by
  cases h with
  | atom h => cases v <;> first | exact .atom h | cases h
  | list a => exact .list a
  | func h label params body => exact .func h label params body
  | returned h => exact h

theorem kind_eq (h : v.Alike R w) : v.kind = w.kind := by
  induction h with
  | returned _ ih => exact ih
  | _ => rfl

theorem isReturned_eq (h : v.Alike R w) : v.isReturned = w.isReturned := by
  cases h <;> rfl

theorem truthy_eq (h : v.Alike R w) (hlists : lists.Alike R lists') :
    v.truthy lists = w.truthy lists' := by
  induction h with
  | @atom v h => cases v <;> first | rfl | cases h
  | list a =>
    have hlength := (hlists.elements a).length_eq
    cases h : lists.elements a <;> cases h' : lists'.elements a <;> simp_all [truthy]
  | func => rfl
  | returned _ ih => exact ih

theorem codeWith_eq (h : v.Alike R w) (elementTexts : ListId → List String) :
    v.codeWith elementTexts = w.codeWith elementTexts := by
  induction h with
  | returned _ ih => exact ih
  | _ => rfl

end Value.Alike

theorem Lists.Alike.mono {lists lists' : Lists} (h : lists.Alike R lists')
    (hR : ∀ s t, R s t → R' s t) : lists.Alike R' lists' :=
  ⟨h.size_eq, fun a => (h.elements a).imp fun _ _ hv => hv.mono hR⟩

theorem Lists.Alike.elementTexts_eq {lists lists' : Lists} (h : lists.Alike R lists') :
    ∀ depth, lists.elementTexts depth = lists'.elementTexts depth := by
  intro depth
  induction depth with
  | zero => rfl
  | succ depth ih =>
    funext a
    rw [Lists.elementTexts, Lists.elementTexts, ih]
    have helements := h.elements a
    generalize lists.elements a = vs, lists'.elements a = vs' at helements ⊢
    induction helements with
    | nil => rfl
    | cons hv _ ih => rw [List.map_cons, List.map_cons, hv.codeWith_eq, ih]

theorem Value.Alike.finiteWith_eq {v w : Value} (h : v.Alike R w) (finite : ListId → Bool) :
    v.finiteWith finite = w.finiteWith finite := by
  induction h with
  | returned _ ih => exact ih
  | _ => rfl

theorem Lists.Alike.finite_eq {lists lists' : Lists} (h : lists.Alike R lists') :
    ∀ depth, lists.finite depth = lists'.finite depth := by
  intro depth
  induction depth with
  | zero =>
    funext a
    have hlength := (h.elements a).length_eq
    cases ha : lists.elements a <;> cases ha' : lists'.elements a <;> simp_all [Lists.finite]
  | succ depth ih =>
    funext a
    rw [Lists.finite, Lists.finite, ih]
    have helements := h.elements a
    generalize lists.elements a = vs, lists'.elements a = vs' at helements ⊢
    induction helements with
    | nil => rfl
    | cons hv _ ih => rw [List.all_cons, List.all_cons, hv.finiteWith_eq, ih]

namespace Value.Alike

variable {lists lists' : Lists} {v w : Value}

theorem isFinite_eq (h : v.Alike R w) (hlists : lists.Alike R lists') :
    v.isFinite lists = w.isFinite lists' := by
  rw [isFinite, isFinite, hlists.size_eq, hlists.finite_eq, h.finiteWith_eq]

theorem code_eq (h : v.Alike R w) (hlists : lists.Alike R lists') :
    v.code lists = w.code lists' := by
  rw [code, code, hlists.size_eq, hlists.elementTexts_eq, h.codeWith_eq]

theorem display_eq (h : v.Alike R w) (hlists : lists.Alike R lists') :
    v.display lists = w.display lists' := by
  induction h with
  | @atom v h => cases v <;> first | rfl | cases h
  | list a => exact (Alike.list a).code_eq hlists
  | func h label params body => exact (Alike.func h label params body).code_eq hlists
  | returned _ ih => exact ih

theorem pieces_eq (h : v.Alike R w) (hlists : lists.Alike R lists') :
    v.pieces lists = w.pieces lists' := by
  induction h with
  | @atom v h => cases v <;> first | rfl | cases h
  | list a => rw [pieces, pieces, hlists.size_eq, hlists.elementTexts_eq]
  | func => rfl
  | returned _ ih => exact ih

end Value.Alike

theorem Fault.Alike.mono {fault fault' : Fault} (h : fault.Alike R fault')
    (hR : ∀ s t, R s t → R' s t) : fault.Alike R' fault' := by
  cases h with
  | plain h => exact .plain h
  | prefixOperand op h => exact .prefixOperand op (h.mono hR)
  | infixOperands op hl hr => exact .infixOperands op (hl.mono hR) (hr.mono hR)
  | notAFunction h => exact .notAFunction (h.mono hR)
  | argument builtin h => exact .argument builtin (h.mono hR)
  | indexTarget h => exact .indexTarget (h.mono hR)
  | indexOperand h => exact .indexOperand (h.mono hR)
  | indexRange h position => exact .indexRange (h.mono hR) position

theorem Fault.Alike.refl (hR : ∀ s, R s s) (fault : Fault) : fault.Alike R fault := by
  cases fault with
  | prefixOperand op v => exact .prefixOperand op (.refl hR v)
  | infixOperands op l r => exact .infixOperands op (.refl hR l) (.refl hR r)
  | notAFunction v => exact .notAFunction (.refl hR v)
  | argument builtin v => exact .argument builtin (.refl hR v)
  | indexTarget v => exact .indexTarget (.refl hR v)
  | indexOperand v => exact .indexOperand (.refl hR v)
  | indexRange v position => exact .indexRange (.refl hR v) position
  | _ => exact .plain rfl

theorem Fault.operandText_eq {lists lists' : Lists} (hlists : lists.Alike R lists') {v w : Value}
    (h : v.Alike R w) : operandText lists v = operandText lists' w := by
  rw [operandText, operandText, h.kind_eq, h.display_eq hlists]

theorem Fault.Alike.message_eq {lists lists' : Lists} (hlists : lists.Alike R lists')
    {fault fault' : Fault} (h : fault.Alike R fault') :
    fault.message lists = fault'.message lists' := by
  have operand {v w : Value} : v.Alike R w → operandText lists v = operandText lists' w :=
    operandText_eq hlists
  rw [message.eq_def, message.eq_def]
  cases h with
  | @plain fault h =>
    cases fault with
    | divisionByZero | unbound | arity | emptyList | output => rfl
    | _ => cases h
  | prefixOperand op h => simp only [operand h]
  | infixOperands op hl hr => simp only [operand hl, operand hr]
  | notAFunction h => simp only [h.display_eq hlists]
  | argument builtin h => simp only [operand h]
  | indexTarget h => simp only [operand h]
  | indexOperand h => simp only [operand h]
  | indexRange h position => simp only [h.display_eq hlists]

/-! ## Operations -/

def Concur {α β : Type} (r : Except Fault α) (r' : Except Fault β) (P : α → β → Prop)
    (Q : Fault → Fault → Prop) : Prop :=
  match r, r' with
  | .ok a, .ok b => P a b
  | .error fault, .error fault' => Q fault fault'
  | _, _ => False

section

variable {lists lists' : Lists} {v v' w w' : Value}

theorem PrefixOp.apply_alike (op : PrefixOp) (hlists : lists.Alike R lists') (h : v.Alike R v') :
    Concur (op.apply lists v) (op.apply lists' v') (Value.Alike R) (Fault.Alike R) := by
  cases op with
  | not =>
    simp only [PrefixOp.apply, h.truthy_eq hlists]
    exact .atom rfl
  | minus =>
    cases h with
    | @atom v h =>
      cases v with
      | int n => exact .atom rfl
      | _ => exact .prefixOperand _ (.atom h)
    | list a => exact .prefixOperand _ (.list a)
    | func h => exact .prefixOperand _ (.func h ..)
    | returned h => exact .prefixOperand _ (.returned h)

theorem InfixOp.onIntegers_alike (op : InfixOp) (a b : Int64) :
    Concur (op.onIntegers a b) (op.onIntegers a b) (Value.Alike R) (Fault.Alike R) := by
  have hspec := op.onIntegers_spec a b
  cases h : op.onIntegers a b with
  | ok v =>
    rw [h] at hspec
    exact .atom hspec
  | error fault =>
    rw [h] at hspec
    exact .plain hspec

theorem InfixOp.onTruths_alike (op : InfixOp) (hlists : lists.Alike R lists') (hl : v.Alike R v')
    (hr : w.Alike R w') :
    Concur (op.onTruths lists v w) (op.onTruths lists' v' w') (Value.Alike R) (Fault.Alike R) := by
  cases op <;> simp only [InfixOp.onTruths, hl.truthy_eq hlists, hr.truthy_eq hlists] <;>
    first | exact .atom rfl | exact .infixOperands _ hl hr

theorem InfixOp.apply_alike (op : InfixOp) (hlists : lists.Alike R lists') (hl : v.Alike R v')
    (hr : w.Alike R w') :
    Concur (op.apply lists v w) (op.apply lists' v' w') (Value.Alike R) (Fault.Alike R) := by
  have truths := op.onTruths_alike hlists hl hr
  -- Operands that are no atoms count as truth values on both sides; atoms are the same on both.
  cases hl with
  | @atom v h =>
    cases hr with
    | @atom w h' =>
      unfold InfixOp.apply
      split
      · split
        · exact .atom rfl
        · exact truths
      · exact op.onIntegers_alike _ _
      · exact op.onIntegers_alike _ _
      · exact truths
    | _ => cases v <;> exact truths
  | _ => exact truths

theorem Lists.Alike.element? (hlists : lists.Alike R lists') (a : ListId) (i : Int64) :
    Option.Rel (Value.Alike R) (lists.element? a i) (lists'.element? a i) := by
  unfold Lists.element?
  split
  · have helements := hlists.elements a
    generalize lists.elements a = vs, lists'.elements a = vs' at helements ⊢
    generalize i.toInt.toNat = n
    induction helements generalizing n with
    | nil => exact .none
    | cons hv _ ih =>
      cases n with
      | zero => exact .some hv
      | succ n => exact ih n
  · exact .none

theorem Value.index_alike (hlists : lists.Alike R lists') (ht : v.Alike R v') (hp : w.Alike R w') :
    Concur (v.index lists w) (v'.index lists' w') (Value.Alike R) (Fault.Alike R) := by
  cases ht with
  | list a =>
    cases hp with
    | atom h =>
      cases w with
      | int i =>
        have helement := hlists.element? a i
        simp only [Value.index]
        generalize lists.element? a i = o, lists'.element? a i = o' at helement ⊢
        cases helement with
        | none => exact .indexRange (.list a) i
        | some hv => exact hv
      | _ => exact .indexOperand (.atom h)
    | list b => exact .indexOperand (.list b)
    | func h => exact .indexOperand (.func h ..)
    | returned h => exact .indexOperand (.returned h)
  | atom h =>
    cases v with
    | list => cases h
    | _ => exact .indexTarget (.atom h)
  | func h => exact .indexTarget (.func h ..)
  | returned h => exact .indexTarget (.returned h)

end

/-! ## Lists -/

namespace Lists.Alike

variable {lists lists' : Lists} {vs vs' : List Value}

theorem alloc (h : lists.Alike R lists') (hvs : List.Forall₂ (Value.Alike R) vs vs') :
    (lists.alloc vs).Alike R (lists'.alloc vs') where
  size_eq := by simp [h.size_eq]
  elements a := by
    have hsize := h.size_eq
    rcases Nat.lt_trichotomy a lists.size with ha | rfl | ha
    · rw [elements_alloc_of_lt ha, elements_alloc_of_lt (hsize ▸ ha)]
      exact h.elements a
    · rw [elements_alloc_self, hsize, elements_alloc_self]
      exact hvs
    · have hle : (lists.alloc vs).size ≤ a := by simpa using Nat.succ_le_of_lt ha
      have hle' : (lists'.alloc vs').size ≤ a := by
        simpa [← hsize] using Nat.succ_le_of_lt ha
      rw [elements_of_size_le hle, elements_of_size_le hle']
      exact .nil

theorem update (h : lists.Alike R lists') (a : ListId)
    (hvs : List.Forall₂ (Value.Alike R) vs vs') :
    (lists.update a vs).Alike R (lists'.update a vs') where
  size_eq := by simp [h.size_eq]
  elements b := by
    by_cases hab : a = b
    · subst hab
      by_cases ha : a < lists.size
      · rw [elements_update_self ha, elements_update_self (h.size_eq ▸ ha)]
        exact hvs
      · have hle : (lists.update a vs).size ≤ a := by simpa using ha
        have hle' : (lists'.update a vs').size ≤ a := by simpa [← h.size_eq] using ha
        rw [elements_of_size_le hle, elements_of_size_le hle']
        exact .nil
    · rw [elements_update_of_ne hab, elements_update_of_ne hab]
      exact h.elements b

end Lists.Alike

/-! ## Bindings -/

def Bindings.Alike (R : ScopeId → ScopeId → Prop) (bindings bindings' : Bindings) : Prop :=
  ∀ name, Option.Rel (Value.Alike R) (bindings.lookup name) (bindings'.lookup name)

theorem Bindings.Alike.bind {bindings bindings' : Bindings}
    (h : bindings.Alike R bindings') {v v' : Value} (hv : v.Alike R v') (name : String) :
    Bindings.Alike R (bindings.bind name v) (bindings'.bind name v') := by
  intro other
  rw [Bindings.lookup_bind, Bindings.lookup_bind]
  split
  · exact .some hv
  · exact h other

theorem Bindings.Alike.bindParams :
    ∀ (params : List String) {args args' : List Value} {bindings bindings' : Bindings},
      bindings.Alike R bindings' → List.Forall₂ (Value.Alike R) args args' →
        Bindings.Alike R (bindings.bindParams params args) (bindings'.bindParams params args')
  | [], _, _, _, _, h, _ => h
  | param :: params, _, _, _, _, h, .nil =>
    bindParams params (h.bind (.atom rfl) param) .nil
  | param :: params, _, _, _, _, h, .cons hv hargs =>
    bindParams params (h.bind hv param) hargs

/-! ## Built-in functions -/

/-- A built-in function cannot see which scopes functions captured, and leaves all scopes alone. -/
def Builtin.Blind (b : Builtin) : Prop :=
  ∀ (R : ScopeId → ScopeId → Prop) sink args args' (store store' : Store),
    List.Forall₂ (Value.Alike R) args args' → store.lists.Alike R store'.lists →
    store.console = store'.console →
      Option.Rel (fun (result, after) (result', after') =>
          Concur result result' (Value.Alike R) (Fault.Alike R) ∧ after.lists.Alike R after'.lists ∧
          after.console = after'.console ∧ after.scopes = store.scopes ∧
          after'.scopes = store'.scopes)
        (b.action sink args store) (b.action sink args' store')

def Builtins.Blind (builtins : Builtins) : Prop :=
  ∀ b ∈ builtins.table, b.Blind

namespace Builtin

def Gives.Alike (R : ScopeId → ScopeId → Prop) (r r' : Value × Lists) : Prop :=
  r.1.Alike R r'.1 ∧ r.2.Alike R r'.2

theorem blind_pure {name : String} {f : List Value → Lists → Except Fault (Value × Lists)}
    (h : ∀ (R : ScopeId → ScopeId → Prop) args args' lists lists',
      List.Forall₂ (Value.Alike R) args args' → lists.Alike R lists' →
        Concur (f args lists) (f args' lists') (Gives.Alike R) (Fault.Alike R)) :
    (Builtin.pure name f).Blind := by
  intro R sink args args' store store' hargs hlists hconsole
  have hf := h R args args' store.lists store'.lists hargs hlists
  simp only [Builtin.pure, onLists]
  cases hr : f args store.lists <;> cases hr' : f args' store'.lists <;> rw [hr, hr'] at hf
  · exact .some ⟨hf, hlists, hconsole, rfl, rfl⟩
  · exact hf.elim
  · exact hf.elim
  · exact .some ⟨hf.1, hf.2, hconsole, rfl, rfl⟩

section

variable {β : Type} {P : β → β → Prop} {args args' : List Value}

theorem concur_oneArgument {next next' : Value → Except Fault β}
    (hargs : List.Forall₂ (Value.Alike R) args args')
    (h : ∀ v v', v.Alike R v' → Concur (next v) (next' v') P (Fault.Alike R)) :
    Concur (oneArgument args >>= next) (oneArgument args' >>= next') P (Fault.Alike R) := by
  rcases hargs with _ | ⟨hv, _ | ⟨hw, hrest⟩⟩
  · exact .plain rfl
  · exact h _ _ hv
  · simp only [oneArgument, List.length_cons, hrest.length_eq]
    exact .plain rfl

theorem concur_twoArguments {next next' : Value × Value → Except Fault β}
    (hargs : List.Forall₂ (Value.Alike R) args args')
    (h : ∀ v v' w w', v.Alike R v' → w.Alike R w' →
      Concur (next (v, w)) (next' (v', w')) P (Fault.Alike R)) :
    Concur (twoArguments args >>= next) (twoArguments args' >>= next') P (Fault.Alike R) := by
  rcases hargs with _ | ⟨hv, _ | ⟨hw, _ | ⟨hu, hrest⟩⟩⟩
  · exact .plain rfl
  · exact .plain rfl
  · exact h _ _ _ _ hv hw
  · simp only [twoArguments, List.length_cons, hrest.length_eq]
    exact .plain rfl

theorem concur_listArgument {name : String} {v v' : Value} {next next' : ListId → Except Fault β}
    (hv : v.Alike R v') (h : ∀ a, Concur (next a) (next' a) P (Fault.Alike R)) :
    Concur (listArgument name v >>= next) (listArgument name v' >>= next') P (Fault.Alike R) := by
  cases hv with
  | list a => exact h a
  | @atom v hatom =>
    cases v with
    | list => cases hatom
    | _ => exact .argument name (.atom hatom)
  | func h => exact .argument name (.func h ..)
  | returned h => exact .argument name (.returned h)

end

theorem printLines_eq {lists lists' : Lists} (hlists : lists.Alike R lists') (sink : Sink)
    {args args' : List Value} (hargs : List.Forall₂ (Value.Alike R) args args')
    (console : Console) :
    printLines sink lists console args = printLines sink lists' console args' := by
  induction hargs generalizing console with
  | nil => rfl
  | cons hv _ ih =>
    simp only [printLines, hv.isFinite_eq hlists, hv.pieces_eq hlists, ih]

theorem print_blind : print.Blind := by
  intro R sink args args' store store' hargs hlists hconsole
  simp only [print, onLists, printLines_eq hlists sink hargs, hconsole]
  cases printLines sink store'.lists store'.console args' with
  | none => exact .none
  | some r =>
    obtain ⟨_ | reason, console⟩ := r
    · exact .some ⟨.atom rfl, hlists, rfl, rfl, rfl⟩
    · exact .some ⟨.plain rfl, hlists, rfl, rfl, rfl⟩

theorem len_blind : len.Blind :=
  blind_pure fun _ _ _ lists lists' hargs hlists => concur_oneArgument hargs fun v _ hv => by
    cases hv with
    | atom h =>
      cases v with
      | str s => exact ⟨.atom rfl, hlists⟩
      | list => cases h
      | _ => exact .argument _ (.atom h)
    | list a =>
      simp only [(hlists.elements a).length_eq]
      exact ⟨.atom rfl, hlists⟩
    | func h => exact .argument _ (.func h ..)
    | returned h => exact .argument _ (.returned h)

theorem head_blind : head.Blind :=
  blind_pure fun _ _ _ lists lists' hargs hlists => concur_oneArgument hargs fun _ _ hv =>
    concur_listArgument hv fun a => by
      have helements := hlists.elements a
      generalize lists.elements a = vs, lists'.elements a = vs' at helements ⊢
      cases helements with
      | nil => exact .plain rfl
      | cons hw _ => exact ⟨hw, hlists⟩

theorem tail_blind : tail.Blind :=
  blind_pure fun _ _ _ lists lists' hargs hlists => concur_oneArgument hargs fun _ _ hv =>
    concur_listArgument hv fun a => by
      have helements := hlists.elements a
      generalize lists.elements a = vs, lists'.elements a = vs' at helements ⊢
      cases helements with
      | nil => exact .plain rfl
      | cons _ hws => exact ⟨hlists.size_eq ▸ .list _, hlists.alloc hws⟩

theorem append_blind : append.Blind :=
  blind_pure fun _ _ _ _ _ hargs hlists =>
    concur_twoArguments hargs fun _ _ _ _ hv hw => concur_listArgument hv fun a =>
      ⟨hlists.size_eq ▸ .list _, hlists.alloc (List.rel_append (hlists.elements a) (.cons hw .nil))⟩

theorem prepend_blind : prepend.Blind :=
  blind_pure fun _ _ _ _ _ hargs hlists =>
    concur_twoArguments hargs fun _ _ _ _ hv hw => concur_listArgument hv fun a =>
      ⟨hlists.size_eq ▸ .list _, hlists.alloc (.cons hw (hlists.elements a))⟩

theorem pop_blind : pop.Blind :=
  blind_pure fun _ _ _ lists lists' hargs hlists => concur_oneArgument hargs fun _ _ hv =>
    concur_listArgument hv fun a => by
      have helements := hlists.elements a
      generalize lists.elements a = vs, lists'.elements a = vs' at helements ⊢
      have hdrop := List.forall₂_take (vs.length - 1) helements
      rw [← List.dropLast_eq_take, helements.length_eq, ← List.dropLast_eq_take] at hdrop
      have hlast := List.rel_reverse helements
      rw [← List.head?_reverse, ← List.head?_reverse]
      generalize vs.reverse = ws, vs'.reverse = ws' at hlast ⊢
      cases hlast with
      | nil => exact .plain rfl
      | cons hw _ => exact ⟨hw, hlists.update a hdrop⟩

theorem shift_blind : shift.Blind :=
  blind_pure fun _ _ _ lists lists' hargs hlists => concur_oneArgument hargs fun _ _ hv =>
    concur_listArgument hv fun a => by
      have helements := hlists.elements a
      generalize lists.elements a = vs, lists'.elements a = vs' at helements ⊢
      cases helements with
      | nil => exact .plain rfl
      | cons hw hws => exact ⟨hw, hlists.update a hws⟩

theorem type_blind : type.Blind :=
  blind_pure fun _ _ _ _ _ hargs hlists => concur_oneArgument hargs fun _ _ hv => by
    rw [hv.kind_eq]
    exact ⟨.atom rfl, hlists⟩

end Builtin

/-- The standard functions never look into a function. -/
theorem Builtins.standard_blind : Builtins.standard.Blind := by
  simp [Blind, standard, Builtin.print_blind, Builtin.len_blind, Builtin.head_blind,
    Builtin.tail_blind, Builtin.append_blind, Builtin.prepend_blind, Builtin.pop_blind,
    Builtin.shift_blind, Builtin.type_blind]

end Scriptlet
