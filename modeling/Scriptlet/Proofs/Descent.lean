import Mathlib.Data.Set.Card
import Scriptlet.Proofs.Grounding
import Scriptlet.Value.Text

/-!
# What ends in every session

Showing a value goes down into lists, comparing two values goes down into two of them, and looking
a name up goes outwards from scope to scope. None of these counts its steps. Here each is a relation
that is derived in finitely many steps, one rule for each way to go on: the derivations exist
because lists refer to older lists and scopes lie in older scopes, and what they derive is what
`Value.code`, `Value.display`, `Value.equal` and `Scopes.chain` say, none of which stops early. In
other states a value may have no text, and `Value.isFinite` says exactly when (`Value.isFinite_iff`).
-/

namespace Scriptlet

/-! ## Texts -/

namespace Value

mutual

inductive Coded (lists : Lists) : Value → String → Prop
  | int (n : Int64) : Coded lists (.int n) (decimal n)
  | bool (b : Bool) : Coded lists (.bool b) (truthText b)
  | str (s : String) : Coded lists (.str s) ("\"" ++ s ++ "\"")
  | nil : Coded lists .nil Keyword.nil.text
  | list {a : ListId} {texts : List String} (h : AllCoded lists (lists.elements a) texts) :
    Coded lists (.list a) ("[" ++ commaSeparated texts ++ "]")
  | func (f : Closure) : Coded lists (.func f) f.text
  | builtin (name : String) : Coded lists (.builtin name) ("builtin function " ++ name)
  | returned {v : Value} {text : String} (h : Coded lists v text) : Coded lists (.returned v) text

inductive AllCoded (lists : Lists) : List Value → List String → Prop
  | nil : AllCoded lists [] []
  | cons {v : Value} {vs : List Value} {text : String} {texts : List String}
    (h : Coded lists v text) (hs : AllCoded lists vs texts) :
    AllCoded lists (v :: vs) (text :: texts)

end

/-- A value's text as a program prints it. -/
inductive Displayed (lists : Lists) : Value → String → Prop
  | str (s : String) : Displayed lists (.str s) s
  | returned {v : Value} {text : String} (h : Displayed lists v text) :
    Displayed lists (.returned v) text
  | code {v : Value} {text : String} (hstr : ∀ s, v ≠ .str s) (hreturned : ∀ w, v ≠ .returned w)
    (h : Coded lists v text) : Displayed lists v text

variable {lists : Lists}

theorem allCoded_map {code : Value → String} {vs : List Value}
    (h : ∀ v ∈ vs, v.Coded lists (code v)) : AllCoded lists vs (vs.map code) := by
  induction vs with
  | nil => exact .nil
  | cons v vs ih =>
    rw [List.forall_mem_cons] at h
    exact .cons h.1 (ih h.2)

mutual

theorem Coded.unique {v : Value} {text text' : String} (h : v.Coded lists text)
    (h' : v.Coded lists text') : text = text' := by
  match h, h' with
  | .int _, .int _ | .bool _, .bool _ | .str _, .str _ | .nil, .nil | .func _, .func _
  | .builtin _, .builtin _ => rfl
  | .list hs, .list hs' => rw [hs.unique hs']
  | .returned h, .returned h' => exact h.unique h'

theorem AllCoded.unique {vs : List Value} {texts texts' : List String}
    (h : AllCoded lists vs texts) (h' : AllCoded lists vs texts') : texts = texts' := by
  match h, h' with
  | .nil, .nil => rfl
  | .cons h hs, .cons h' hs' => rw [h.unique h', hs.unique hs']

end

end Value

/-! ## Values that have a text -/

theorem Value.finiteWith_iff {finite : ListId → Bool} {v : Value} :
    v.finiteWith finite = true ↔ ∀ a, v.list? = some a → finite a = true := by
  induction v with
  | list a => exact ⟨fun h _ hb => Option.some.inj hb ▸ h, fun h => h a rfl⟩
  | returned v ih => exact ih
  | _ => exact ⟨fun _ _ => nofun, fun _ => rfl⟩

namespace Lists

variable {lists : Lists} {a b : ListId}

/-- A way down into a list comes to an end. -/
def Bottoms (lists : Lists) (a : ListId) : Prop :=
  Acc (fun b a => lists.Contains a b) a

def inside (lists : Lists) (a : ListId) : Set ListId :=
  {b | b < lists.size ∧ Relation.TransGen lists.Contains a b}

theorem inside_finite : (lists.inside a).Finite :=
  (Set.finite_lt_nat lists.size).subset fun _ hb => hb.1

theorem ncard_inside_lt_size (ha : a < lists.size) (hloop : ¬Relation.TransGen lists.Contains a a) :
    (lists.inside a).ncard < lists.size := by
  have hsubset : lists.inside a ⊂ ↑(Finset.range lists.size) :=
    ⟨fun _ hb => Finset.mem_coe.2 (Finset.mem_range.2 hb.1),
      fun h => hloop (h (Finset.mem_coe.2 (Finset.mem_range.2 ha))).2⟩
  have hcard := Set.ncard_lt_ncard hsubset (Finset.finite_toSet _)
  rwa [Set.ncard_coe_finset, Finset.card_range] at hcard

theorem ncard_inside_lt (hab : lists.Contains a b) (hb : b < lists.size)
    (hloop : ¬Relation.TransGen lists.Contains b b) :
    (lists.inside b).ncard < (lists.inside a).ncard := by
  refine Set.ncard_lt_ncard ⟨fun c hc => ⟨hc.1, .head hab hc.2⟩, fun h => ?_⟩ inside_finite
  exact hloop (h ⟨hb, .single hab⟩).2

theorem Bottoms.irrefl (h : lists.Bottoms a) : ¬Relation.TransGen lists.Contains a a := by
  induction h with
  | intro a _ ih =>
    intro hloop
    obtain ⟨b, hab, hba⟩ := Relation.TransGen.head'_iff.1 hloop
    exact ih b hab (.tail' hba hab)

theorem finite_of_elements_eq_nil (h : lists.elements a = []) (depth : Nat) :
    lists.finite depth a = true := by
  cases depth <;> simp [finite, h]

/-- Every step down leaves fewer lists to come to. -/
theorem Bottoms.finite (h : lists.Bottoms a) {depth : Nat}
    (hdepth : (lists.inside a).ncard < depth) : lists.finite depth a = true := by
  induction h generalizing depth with
  | intro a hbelow ih =>
    obtain ⟨depth, rfl⟩ := Nat.exists_eq_succ_of_ne_zero (Nat.ne_zero_of_lt hdepth)
    rw [Lists.finite, List.all_eq_true]
    refine fun v hv => Value.finiteWith_iff.2 fun b hb => ?_
    have hab : lists.Contains a b := ⟨v, hv, hb⟩
    by_cases hsize : b < lists.size
    · have hfewer := ncard_inside_lt hab hsize (Bottoms.irrefl (hbelow b hab))
      exact ih b hab (Nat.lt_of_lt_of_le hfewer (Nat.le_of_lt_succ hdepth))
    · exact finite_of_elements_eq_nil (elements_of_size_le (Nat.le_of_not_lt hsize)) depth

end Lists

namespace Value

variable {lists : Lists} {v : Value}

theorem isFinite_of_bottoms (h : ∀ a, v.list? = some a → lists.Bottoms a) :
    v.isFinite lists = true := by
  refine finiteWith_iff.2 fun a ha => ?_
  by_cases hsize : a < lists.size
  · exact (h a ha).finite (Lists.ncard_inside_lt_size hsize (h a ha).irrefl)
  · exact Lists.finite_of_elements_eq_nil (Lists.elements_of_size_le (Nat.le_of_not_lt hsize)) _

mutual

/-- What is written out to an end has an end. -/
theorem Coded.bottoms {v : Value} {text : String} (h : v.Coded lists text) :
    ∀ a, v.list? = some a → lists.Bottoms a := by
  match h with
  | .list hs =>
    rintro _ ⟨⟩
    refine ⟨_, fun b hab => ?_⟩
    obtain ⟨w, hw, hb⟩ := hab
    exact hs.bottoms w hw b hb
  | .returned h => exact h.bottoms
  | .int _ | .bool _ | .str _ | .nil | .func _ | .builtin _ => exact fun _ => nofun

theorem AllCoded.bottoms {vs : List Value} {texts : List String} (h : AllCoded lists vs texts) :
    ∀ v ∈ vs, ∀ a, v.list? = some a → lists.Bottoms a := by
  match h with
  | .nil => exact fun _ hv => absurd hv List.not_mem_nil
  | .cons h hs => exact List.forall_mem_cons.2 ⟨h.bottoms, hs.bottoms⟩

end

theorem Displayed.bottoms {text : String} (h : v.Displayed lists text) :
    ∀ a, v.list? = some a → lists.Bottoms a := by
  induction h with
  | str s => exact fun _ => nofun
  | returned _ ih => exact ih
  | code _ _ h => exact h.bottoms

/-- A value is written out in full if the list that it is or arrives as is. -/
theorem coded_codeWith_of_lists {elementTexts : ListId → List String}
    (h : ∀ a, v.list? = some a →
      Coded lists (.list a) ("[" ++ commaSeparated (elementTexts a) ++ "]")) :
    v.Coded lists (v.codeWith elementTexts) := by
  induction v with
  | int n => exact .int n
  | bool b => exact .bool b
  | str s => exact .str s
  | nil => exact .nil
  | list a => exact h a rfl
  | func f => exact .func f
  | builtin name => exact .builtin name
  | returned v ih => exact .returned (ih h)

/-- At a depth at which nothing is left out of a list, it is written out in full. -/
theorem coded_elementTexts {depth : Nat} {a : ListId} (h : lists.finite depth a = true) :
    Coded lists (.list a) ("[" ++ commaSeparated (lists.elementTexts depth a) ++ "]") := by
  induction depth generalizing a with
  | zero =>
    have hnil : lists.elements a = [] := List.isEmpty_iff.1 h
    exact .list (hnil ▸ .nil)
  | succ depth ih =>
    have helements := List.all_eq_true.1 h
    exact .list (allCoded_map fun w hw => coded_codeWith_of_lists fun b hb =>
      ih (finiteWith_iff.1 (helements w hw) b hb))

theorem coded_iff (h : v.isFinite lists = true) (text : String) :
    v.Coded lists text ↔ text = v.code lists := by
  have hcode : v.Coded lists (v.code lists) :=
    coded_codeWith_of_lists fun a ha => coded_elementTexts (finiteWith_iff.1 h a ha)
  exact ⟨fun htext => htext.unique hcode, fun htext => htext ▸ hcode⟩

theorem displayed_iff (h : v.isFinite lists = true) (text : String) :
    v.Displayed lists text ↔ text = v.display lists := by
  induction v with
  | str s =>
    refine ⟨fun htext => ?_, fun htext => htext ▸ .str s⟩
    cases htext with
    | str => rfl
    | code hstr => exact absurd rfl (hstr s)
  | returned v ih =>
    refine ⟨fun htext => ?_, fun htext => .returned ((ih h).2 htext)⟩
    cases htext with
    | returned htext => exact (ih h).1 htext
    | code _ hreturned => exact absurd rfl (hreturned v)
  | _ =>
    refine ⟨fun htext => ?_, fun htext => ?_⟩
    · cases htext with
      | code _ _ hcode => exact (coded_iff h text).1 hcode
    · exact .code (fun _ => nofun) (fun _ => nofun) ((coded_iff h text).2 htext)

end Value

/-! ## Comparisons -/

namespace Value

mutual

/-- What comparing two values comes to. Values of different forms differ. -/
inductive Compared (lists : Lists) : Value → Value → Bool → Prop
  | form {v w : Value} (h : v.ctorIdx ≠ w.ctorIdx) : Compared lists v w false
  | int (a b : Int64) : Compared lists (.int a) (.int b) (a == b)
  | bool (a b : Bool) : Compared lists (.bool a) (.bool b) (a == b)
  | str (a b : String) : Compared lists (.str a) (.str b) (a == b)
  | nil : Compared lists .nil .nil true
  /-- Lists of different lengths are not looked into. -/
  | length {a b : ListId} (h : (lists.elements a).length ≠ (lists.elements b).length) :
    Compared lists (.list a) (.list b) false
  | list {a b : ListId} {same : Bool}
    (hlength : (lists.elements a).length = (lists.elements b).length)
    (h : AllCompared lists (lists.elements a) (lists.elements b) same) :
    Compared lists (.list a) (.list b) same
  | func (f g : Closure) :
    Compared lists (.func f) (.func g) (f.label == g.label && f.scope == g.scope)
  | builtin (a b : String) : Compared lists (.builtin a) (.builtin b) (a == b)
  | returned {v w : Value} {same : Bool} (h : Compared lists v w same) :
    Compared lists (.returned v) (.returned w) same

inductive AllCompared (lists : Lists) : List Value → List Value → Bool → Prop
  | nil : AllCompared lists [] [] true
  | differ {v w : Value} {vs ws : List Value} (h : Compared lists v w false) :
    AllCompared lists (v :: vs) (w :: ws) false
  | next {v w : Value} {vs ws : List Value} {same : Bool} (h : Compared lists v w true)
    (hs : AllCompared lists vs ws same) : AllCompared lists (v :: vs) (w :: ws) same

end

variable {lists : Lists}

theorem allCompared_isEqv {equal : Value → Value → Bool} {vs ws : List Value}
    (hlength : vs.length = ws.length)
    (h : ∀ v ∈ vs, ∀ w ∈ ws, v.Compared lists w (equal v w)) :
    AllCompared lists vs ws (vs.isEqv ws equal) := by
  induction vs generalizing ws with
  | nil =>
    obtain rfl := List.eq_nil_of_length_eq_zero hlength.symm
    exact .nil
  | cons v vs ih =>
    obtain ⟨w, ws, rfl⟩ := List.exists_cons_of_length_eq_add_one hlength.symm
    have hvw := h v List.mem_cons_self w List.mem_cons_self
    have hrest := ih (Nat.succ.inj hlength) fun v hv w hw =>
      h v (List.mem_cons_of_mem _ hv) w (List.mem_cons_of_mem _ hw)
    rw [List.isEqv_cons_cons]
    cases heq : equal v w with
    | false => exact .differ (heq ▸ hvw)
    | true => exact .next (heq ▸ hvw) hrest

/-- Two values are compared in full if the lists that they are or arrive as are. -/
theorem compared_equalWith_of_lists {same : ListId → ListId → Bool} {v w : Value}
    (hlists : ∀ a b, v.list? = some a → w.list? = some b →
      Compared lists (.list a) (.list b) (same a b)) :
    v.Compared lists w (v.equalWith same w) := by
  induction v generalizing w with
  | int a =>
    cases w with
    | int b => exact .int a b
    | _ => exact .form nofun
  | bool a =>
    cases w with
    | bool b => exact .bool a b
    | _ => exact .form nofun
  | str a =>
    cases w with
    | str b => exact .str a b
    | _ => exact .form nofun
  | nil =>
    cases w with
    | nil => exact .nil
    | _ => exact .form nofun
  | list a =>
    cases w with
    | list b => exact hlists a b rfl rfl
    | _ => exact .form nofun
  | func f =>
    cases w with
    | func g => exact .func f g
    | _ => exact .form nofun
  | builtin a =>
    cases w with
    | builtin b => exact .builtin a b
    | _ => exact .form nofun
  | returned v ih =>
    cases w with
    | returned w => exact .returned (ih hlists)
    | _ => exact .form nofun

/-- Two of the first `k` lists are compared in full at a depth of at least `k`. -/
theorem compared_equal {n : Nat} (hlists : ∀ a, ∀ v ∈ lists.elements a, v.RefersBelow n a)
    {k : Nat} : ∀ {depth : Nat}, k ≤ depth → ∀ {a b : ListId}, a < k → b < k →
      Compared lists (.list a) (.list b) (lists.equal depth a b) := by
  induction k with
  | zero => exact fun _ _ _ ha => absurd ha (Nat.not_lt_zero _)
  | succ k ih =>
    intro depth hdepth a b ha hb
    obtain ⟨depth, rfl⟩ := Nat.exists_eq_succ_of_ne_zero (Nat.ne_zero_of_lt hdepth)
    have hdepth := Nat.le_of_succ_le_succ hdepth
    rw [Lists.equal]
    by_cases hlength : (lists.elements a).length = (lists.elements b).length
    · refine .list hlength (allCompared_isEqv hlength fun v hv w hw => ?_)
      refine compared_equalWith_of_lists fun c d hc hd => ih hdepth ?_ ?_
      · exact Nat.lt_of_lt_of_le ((hlists a v hv).list c hc) (Nat.le_of_lt_succ ha)
      · exact Nat.lt_of_lt_of_le ((hlists b w hw).list d hd) (Nat.le_of_lt_succ hb)
    · rw [List.isEqv_eq_decide, dif_neg hlength]
      exact .length hlength

mutual

theorem Compared.unique {v w : Value} {same same' : Bool} (h : v.Compared lists w same)
    (h' : v.Compared lists w same') : same = same' := by
  match h, h' with
  | .form _, .form _ | .int _ _, .int _ _ | .bool _ _, .bool _ _ | .str _ _, .str _ _ | .nil, .nil
  | .length _, .length _ | .func _ _, .func _ _ | .builtin _ _, .builtin _ _ => rfl
  | .list _ h, .list _ h' => exact h.unique h'
  | .returned h, .returned h' => exact h.unique h'
  | .length hne, .list heq _ | .list heq _, .length hne => exact absurd heq hne
  | .form hne, .int .. | .form hne, .bool .. | .form hne, .str .. | .form hne, .nil
  | .form hne, .length _ | .form hne, .list .. | .form hne, .func .. | .form hne, .builtin ..
  | .form hne, .returned _ | .int .., .form hne | .bool .., .form hne | .str .., .form hne
  | .nil, .form hne | .length _, .form hne | .list .., .form hne | .func .., .form hne
  | .builtin .., .form hne | .returned _, .form hne => exact absurd rfl hne

theorem AllCompared.unique {vs ws : List Value} {same same' : Bool}
    (h : AllCompared lists vs ws same) (h' : AllCompared lists vs ws same') : same = same' := by
  match h, h' with
  | .nil, .nil | .differ _, .differ _ => rfl
  | .next _ h, .next _ h' => exact h.unique h'
  | .differ h, .next h' _ => exact absurd (h.unique h') Bool.false_ne_true
  | .next h _, .differ h' => exact absurd (h.unique h').symm Bool.false_ne_true

end

end Value

/-! ## Ways outwards -/

/-- The way outwards from a scope has an end, and whatever is asked of the scope is answered along
it. -/
structure Scopes.Rooted (scopes : Scopes) (s : ScopeId) (way : List ScopeId) (root : ScopeId) :
    Prop where
  path : scopes.Path s way
  last : way.getLast? = some root
  outermost : scopes.outer? root = none
  get? : ∀ name, scopes.get? s name = way.findSome? fun t => scopes.own? t name
  setGlobal : ∀ name v, scopes.setGlobal s name v = scopes.set root name v
  depth : scopes.depth s = way.length

theorem Scopes.Path.rooted {scopes : Scopes} {s : ScopeId} {way : List ScopeId}
    (h : scopes.Path s way) : scopes.Rooted s way (scopes.root s) where
  path := h
  last := by
    rw [Scopes.root, h.chain_eq]
    cases h <;> simp [List.getLast?_cons]
  outermost := by
    rw [Scopes.root, h.chain_eq]
    exact h.outer?_getLastD s
  get? name := by rw [Scopes.get?, h.chain_eq]
  setGlobal _ _ := rfl
  depth := by rw [Scopes.depth, h.chain_eq]

/-! ## States -/

namespace Machine.Grounded

variable {m : Machine} {v w : Value}

/-- Every way down into a list leads to older lists. -/
theorem bottoms (h : m.Grounded) (a : ListId) : m.lists.Bottoms a := by
  induction a using Nat.strongRecOn with
  | ind a ih => exact ⟨a, fun b hab => ih b (h.lt_of_contains (.single hab))⟩

theorem isFinite (h : m.Grounded) (v : Value) : v.isFinite m.lists = true :=
  Value.isFinite_of_bottoms fun a _ => h.bottoms a

theorem compared_iff (h : m.Grounded) (hv : v.RefersBelow m.scopes.size m.lists.size)
    (hw : w.RefersBelow m.scopes.size m.lists.size) (same : Bool) :
    v.Compared m.lists w same ↔ same = v.equal m.lists w := by
  have hequal : v.Compared m.lists w (v.equal m.lists w) :=
    Value.compared_equalWith_of_lists fun a b ha hb =>
      Value.compared_equal h.listed (Nat.le_refl _) (hv.list a ha) (hw.list b hb)
  exact ⟨fun hsame => hsame.unique hequal, fun hsame => hsame ▸ hequal⟩

end Machine.Grounded

/-- Whatever an embedder does to a session, its store stays well founded, and everything that goes
down into values or outwards through scopes comes to an end. -/
theorem store_stays_well_founded {session : Session} {held : List Value}
    (h : session.Reachable held) :
    let m := session.machine
    m.Grounded ∧ (∀ v ∈ held, v.RefersBelow m.scopes.size m.lists.size) ∧
    (∀ a b, Relation.TransGen m.lists.Contains a b → b < a) ∧
    (∀ s < m.scopes.size, ∃ way root, m.scopes.Rooted s way root) ∧
    ∀ v : Value, v.RefersBelow m.scopes.size m.lists.size →
      (∀ text, v.Coded m.lists text ↔ text = v.code m.lists) ∧
      (∀ text, v.Displayed m.lists text ↔ text = v.display m.lists) ∧
      ∀ w : Value, w.RefersBelow m.scopes.size m.lists.size →
        ∀ same, v.Compared m.lists w same ↔ same = v.equal m.lists w := by
  intro m
  have hm : m.Grounded := h.grounded
  refine ⟨hm, h.held_refers, fun a b => hm.lt_of_contains, fun s hs => ?_, fun v hv => ?_⟩
  · obtain ⟨way, hway⟩ := hm.scoped.path hs
    exact ⟨way, _, hway.rooted⟩
  · exact ⟨Value.coded_iff (hm.isFinite v), Value.displayed_iff (hm.isFinite v),
      fun w hw => hm.compared_iff hv hw⟩

/-- A function in the scope that it captured, and a list with a list and that function in it. -/
theorem store_stays_well_founded_of_cycle :
    let program : Program := [
      .var "f" (.func () [] [.expr (.ident "f")]),
      .var "xs" (.list [.list [.int 1], .ident "f"]),
      .expr (.call (.ident "append") [.ident "xs", .ident "xs"])]
    let f : Closure := ⟨0, [], [.expr (.ident "f")], 0⟩
    let session := Session.start { options := {}, builtins := .standard, sink := .unlimited }
    ∃ after, session.evaluate 20 program 0 = some (.list 2, after) ∧
      after.Reachable [.list 2] ∧
      after.machine.scopes.own? 0 "f" = some (.func f) ∧
      after.machine.lists.elements 2 = [.list 0, .func f, .list 1] ∧ after.machine.Grounded ∧
      (Value.list 2).Displayed after.machine.lists
        "[[1], func() \x7bf\x7d, [[1], func() \x7bf\x7d]]" := by
  intro program f session
  let look (r : Value × Session) :=
    (r.1, r.2.machine.scopes.own? 0 "f", r.2.machine.lists.elements 2,
      (Value.list 2).display r.2.machine.lists)
  have hrun : (session.evaluate 20 program 0).map look =
      some (.list 2, some (.func f), [.list 0, .func f, .list 1],
        "[[1], func() \x7bf\x7d, [[1], func() \x7bf\x7d]]") := by
    decide +kernel
  obtain ⟨⟨v, after⟩, hv, hlook⟩ := Option.map_eq_some_iff.1 hrun
  simp only [look, Prod.mk.injEq] at hlook
  obtain ⟨rfl, hf, helements, htext⟩ := hlook
  have hreachable : after.Reachable [.list 2] :=
    (Session.Reachable.start {} .unlimited).evaluate 20 program (by decide) hv
  obtain ⟨hgrounded, hheld, -, -, hends⟩ := store_stays_well_founded hreachable
  have hlist := hends (.list 2) (hheld _ (List.mem_singleton_self _))
  exact ⟨after, hv, hreachable, hf, helements, hgrounded, (hlist.2.1 _).2 htext.symm⟩

end Scriptlet
