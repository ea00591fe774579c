import Scriptlet.Proofs.Comparison
import Scriptlet.Proofs.Descent
import Scriptlet.Proofs.Origins
import Scriptlet.Proofs.Steps

/-!
# Equal values look alike

Whether functions are equal is decided by a label and a scope, and what they say is not looked at.
They say the same nevertheless, because in programs that are numbered one after the other a label
tells the literal. So equal values cannot be told apart by what is shown of them, in every state
that such programs bring about, however often each of them is run.
-/

namespace Scriptlet

/-! ## Texts -/

/-- A label tells which of the literals with a property a function is from. -/
def Labelled (Q : Lambda Nat → Prop) : Prop :=
  ∀ f g, Q f → Q g → f.label = g.label → f = g

section

variable {Q : Lambda Nat → Prop} {lists : Lists} {v w : Value}

theorem Closure.text_eq_of_lambda_eq {f g : Closure} (h : f.lambda = g.lambda) : f.text = g.text := by
  obtain ⟨hlabel, hparams, hbody⟩ := Lambda.mk.inj h
  rw [Closure.text, Closure.text, hlabel, hparams, hbody]

theorem Value.Matched.codeWith_eq {same : ListId → ListId → Prop} (hQ : Labelled Q)
    {elementTexts : ListId → List String}
    (htexts : ∀ a b, same a b → elementTexts a = elementTexts b) (h : v.Matched same w)
    (hv : v.MadeOf Q) (hw : w.MadeOf Q) : v.codeWith elementTexts = w.codeWith elementTexts := by
  induction h with
  | atom => rfl
  | @list a b h =>
    show "[" ++ commaSeparated (elementTexts a) ++ "]" =
      "[" ++ commaSeparated (elementTexts b) ++ "]"
    rw [htexts a b h]
  | func hlabel _ => exact Closure.text_eq_of_lambda_eq (hQ _ _ hv.1 hw.1 hlabel)
  | returned _ ih => exact ih hv hw

/-- Equal lists are shown with the same texts between their brackets. -/
theorem Lists.elementTexts_eq_of_equal (hQ : Labelled Q)
    (hlists : ∀ a, ∀ v ∈ lists.elements a, v.MadeOf Q) {depth : Nat} {a b : ListId}
    (h : lists.equal depth a b = true) :
    lists.elementTexts depth a = lists.elementTexts depth b := by
  induction depth generalizing a b with
  | zero => rfl
  | succ depth ih =>
    have h := Lists.equal_succ_iff.1 h
    have hvs := hlists a
    have hws := hlists b
    rw [Lists.elementTexts, Lists.elementTexts]
    generalize lists.elements a = vs, lists.elements b = ws at h hvs hws
    induction h with
    | nil => rfl
    | @cons v w _ _ hvw _ ihvs =>
      rw [List.forall_mem_cons] at hvs hws
      have hcode : v.codeWith (lists.elementTexts depth) = w.codeWith (lists.elementTexts depth) :=
        hvw.codeWith_eq hQ (fun _ _ => ih) hvs.1 hws.1
      rw [List.map_cons, List.map_cons, hcode, ihvs hvs.2 hws.2]

variable (hQ : Labelled Q) (hlists : ∀ a, ∀ v ∈ lists.elements a, v.MadeOf Q)
  (h : v.equal lists w = true) (hv : v.MadeOf Q) (hw : w.MadeOf Q)
include hQ hlists h hv hw

theorem Value.code_eq_of_equal : v.code lists = w.code lists :=
  (Value.equal_iff.1 h).codeWith_eq hQ (fun _ _ => Lists.elementTexts_eq_of_equal hQ hlists) hv hw

theorem Value.display_eq_of_equal : v.display lists = w.display lists := by
  have hcode := Value.code_eq_of_equal hQ hlists h hv hw
  rw [Value.equal_iff] at h
  induction h with
  | atom => rfl
  | list => exact hcode
  | func => exact hcode
  | returned _ ih => exact ih hv hw hcode

end

/-! ## States -/

/-- A scope with none around it binds nothing, so an invariant has nothing to say of it. -/
theorem Machine.Obeys.newRoot {inv : Invariant} {m : Machine} (h : m.Obeys inv) :
    m.newRoot.2.Obeys inv := by
  have hgrown : m.Grown m.newRoot.2 := ⟨by simp [Machine.newRoot], Nat.le_refl _⟩
  refine ⟨fun s name v hv => ?_, fun s o ho => ?_, h.listed.mono hgrown.scopes, fun f hf => ?_⟩
  · rw [Machine.newRoot, Scopes.own?_add] at hv
    split at hv
    · cases hv
    · exact (h.bound s name v hv).mono hgrown
  · rw [Machine.newRoot, Scopes.outer?_add] at ho
    split at ho
    · cases ho
    · exact h.outer s o ho
  · exact inv.fault_mono hgrown.scopes hgrown.lists (h.noted f hf)

/-- A state as an embedder can have brought it about with some programs, each run any number of
times with the standard built-in functions, and values that the embedder has got hold of on the
way. -/
inductive Machine.Arises (codes : List Code) : Machine → List Value → Prop
  | empty : Arises codes .empty []
  | newRoot {m : Machine} {held : List Value} (h : Arises codes m held) :
    Arises codes m.newRoot.2 held
  | enclose {m : Machine} {held : List Value} (h : Arises codes m held) {s : ScopeId}
    (hs : s < m.scopes.size) : Arises codes (m.enclose s []).2 held
  | run {m m' : Machine} {held : List Value} (h : Arises codes m held) {ctx : Context}
    (hb : ctx.builtins = .standard) {fuel : Nat} {code : Code} (hcode : code ∈ codes) {s : ScopeId}
    (hs : s < m.scopes.size) {v : Value} (hv : evalProgram ctx fuel code s m = some (v, m')) :
    Arises codes m' (v :: held)
  /-- A function is made of a literal by hand. -/
  | capture {m : Machine} {held : List Value} (h : Arises codes m held) {f : Lambda Nat}
    (hf : f ∈ codes.flatMap Block.lambdas) {s : ScopeId} (hs : s < m.scopes.size) :
    Arises codes m (.func ⟨f.label, f.params, f.body, s⟩ :: held)
  | build {m : Machine} {held : List Value} (h : Arises codes m held) (d : Datum) :
    Arises codes { m with lists := (d.build m.lists).2 } ((d.build m.lists).1 :: held)
  | gather {m : Machine} {held vs : List Value} (h : Arises codes m held) (hvs : vs ⊆ held) :
    Arises codes (m.newList vs).2 ((m.newList vs).1 :: held)
  /-- A value is marked as one on its way out. -/
  | wrap {m : Machine} {held : List Value} (h : Arises codes m held) {v : Value} (hv : v ∈ held) :
    Arises codes m (.returned v :: held)
  | get {m : Machine} {held : List Value} (h : Arises codes m held) {s : ScopeId} {name : String}
    {v : Value} (hv : m.scopes.get? s name = some v) : Arises codes m (v :: held)
  | bind {m : Machine} {held : List Value} (h : Arises codes m held) {v : Value} (hv : v ∈ held)
    (s : ScopeId) (name : String) : Arises codes (m.bind s name v) held
  | bindGlobal {m : Machine} {held : List Value} (h : Arises codes m held) {v : Value}
    (hv : v ∈ held) (s : ScopeId) (name : String) :
    Arises codes { m with scopes := m.scopes.setGlobal s name v } held
  | takeFaults {m : Machine} {held : List Value} (h : Arises codes m held) :
    Arises codes { m with faults := #[] } (m.faults.toList.flatMap Fault.values ++ held)

/-- The values of a state: those in scopes, lists and faults, those that the embedder holds, and
what those on their way out carry. -/
inductive Machine.Has (m : Machine) (held : List Value) : Value → Prop
  | held {v : Value} (h : v ∈ held) : Has m held v
  | bound {s : ScopeId} {name : String} {v : Value} (h : m.scopes.own? s name = some v) :
    Has m held v
  | listed {a : ListId} {v : Value} (h : v ∈ m.lists.elements a) : Has m held v
  | noted {fault : Fault} {v : Value} (h : fault ∈ m.faults) (hv : v ∈ fault.values) : Has m held v
  | carried {v : Value} (h : Has m held (.returned v)) : Has m held v

/-- All that a state and its embedder hold exists and was made from literals with a property. -/
structure Machine.Accounted (Q : Lambda Nat → Prop) (m : Machine) (held : List Value) : Prop where
  obeys : m.Obeys .grounded
  made : m.MadeOf Q Q
  held : ∀ v ∈ held, m.Admits .grounded v ∧ v.MadeOf Q

namespace Machine.Accounted

variable {Q : Lambda Nat → Prop} {m m' : Machine} {held : List Value} {v : Value}

/-- A step to another state, with one more value. -/
theorem reaches (h : m.Accounted Q held) (hr : m.Reaches .grounded v m')
    (hmade : m'.MadeWith Q Q v) : m'.Accounted Q (v :: held) where
  obeys := hr.obeys
  made := hmade.toMadeOf
  held := List.forall_mem_cons.2 ⟨⟨hr.admits, hmade.value⟩, fun w hw =>
    (h.held w hw).imp_left fun hadmits => hadmits.mono hr.grown⟩

/-- A step to another state. -/
theorem grows (h : m.Accounted Q held) (hgrown : m.Grown m') (hobeys : m'.Obeys .grounded)
    (hmade : m'.MadeOf Q Q) : m'.Accounted Q held :=
  ⟨hobeys, hmade, fun w hw => (h.held w hw).imp_left fun hadmits => hadmits.mono hgrown⟩

theorem empty (Q : Lambda Nat → Prop) : Machine.empty.Accounted Q [] where
  obeys := {
    bound := fun s name v hv => by simp [Machine.empty, Scopes.empty, Scopes.own?] at hv
    outer := fun s o ho => by simp [Machine.empty, Scopes.empty, Scopes.outer?] at ho
    listed := ⟨Nat.zero_le _, fun a v hv => nomatch hv⟩
    noted := fun f hf => absurd hf (Array.not_mem_empty f) }
  made := {
    bound := fun s name v hv => by simp [Machine.empty, Scopes.empty, Scopes.own?] at hv
    listed := fun a v hv => nomatch hv
    noted := fun f hf => absurd hf (Array.not_mem_empty f) }
  held v hv := nomatch hv

theorem newRoot (h : m.Accounted Q held) : m.newRoot.2.Accounted Q held :=
  h.grows ⟨by simp [Machine.newRoot], Nat.le_refl _⟩ h.obeys.newRoot h.made.newRoot

theorem build (h : m.Accounted Q held) (d : Datum) :
    Machine.Accounted Q { m with lists := (d.build m.lists).2 } ((d.build m.lists).1 :: held) := by
  have hd := d.builds Value.RefersBelow.returned h.obeys.listed
  have hmade : Builds (.madeOf (R := Q) fun _ hf => hf) 0 m.lists [(d.build m.lists).1]
      (d.build m.lists).2 :=
    d.builds (fun hv => hv) ⟨Nat.zero_le _, fun a v hv _ => h.made.listed a v hv⟩
  refine h.reaches ⟨⟨Nat.le_refl _, hd.size_le⟩, h.obeys.lists hd.size_le hd.obeys,
    hd.values _ (List.mem_singleton_self _)⟩
    ⟨⟨h.made.bound, fun a v hv => ?_, h.made.noted⟩, ?_⟩
  · exact hmade.obeys.element a v hv rfl
  · exact hmade.values _ (List.mem_singleton_self _) rfl

theorem takeFaults (h : m.Accounted Q held) :
    Machine.Accounted Q { m with faults := #[] } (m.faults.toList.flatMap Fault.values ++ held) where
  obeys := ⟨h.obeys.bound, h.obeys.outer, h.obeys.listed,
    fun f hf => absurd hf (Array.not_mem_empty f)⟩
  made := ⟨h.made.bound, h.made.listed, fun f hf => absurd hf (Array.not_mem_empty f)⟩
  held v hv := by
    rcases List.mem_append.1 hv with hv | hv
    · obtain ⟨fault, hmem, hv⟩ := List.mem_flatMap.1 hv
      have hmem := Array.mem_toList_iff.1 hmem
      exact ⟨h.obeys.noted fault hmem v hv, h.made.noted fault hmem v hv⟩
    · exact h.held v hv

/-- What is said of the state is said of each of its values. -/
theorem of_has (h : m.Accounted Q held) (hv : m.Has held v) :
    m.Admits .grounded v ∧ v.MadeOf Q := by
  induction hv with
  | held hv => exact h.held _ hv
  | bound hv => exact ⟨h.obeys.bound _ _ _ hv, h.made.bound _ _ _ hv⟩
  | listed hv => exact ⟨h.obeys.listed.admits hv, h.made.listed _ _ hv⟩
  | noted hf hv => exact ⟨h.obeys.noted _ hf _ hv, h.made.noted _ hf _ hv⟩
  | carried _ ih => exact ⟨Value.RefersBelow.of_returned ih.1, ih.2⟩

end Machine.Accounted

theorem Machine.Arises.accounted {codes : List Code} {m : Machine} {held : List Value}
    (h : Machine.Arises codes m held) :
    m.Accounted (· ∈ codes.flatMap Block.lambdas) held := by
  induction h with
  | empty => exact .empty _
  | newRoot _ ih => exact ih.newRoot
  | @enclose m held _ s hs ih =>
    exact ih.grows ⟨by simp [Machine.enclose], Nat.le_refl _⟩
      (ih.obeys.enclose hs fun _ _ hv => nomatch hv)
      (ih.made.enclose s fun _ _ hv => nomatch hv)
  | @run m m' held _ ctx hb fuel code hcode s hs v hv ih =>
    have hrespect : ctx.builtins.Respect .grounded := hb ▸ Builtins.standard_respect _
    have hlambdas : ∀ f ∈ Block.lambdas code, f ∈ codes.flatMap Block.lambdas := fun f hf =>
      List.mem_flatMap.2 ⟨code, hcode, hf⟩
    exact ih.reaches (evalProgram_reaches hrespect ih.obeys hs fuel code v m' hv)
      (evalProgram_madeWith (fun _ hf => hf) hb ih.made fuel hlambdas s v m' hv)
  | @capture m held _ f hf s hs ih =>
    obtain ⟨code, hcode, hmem⟩ := List.mem_flatMap.1 hf
    have hbody : ∀ g ∈ Block.lambdas f.body, g ∈ codes.flatMap Block.lambdas := fun g hg =>
      List.mem_flatMap.2 ⟨code, hcode, block_mem_lambdas_trans code hmem hg⟩
    exact ih.reaches (ih.obeys.stays (Invariant.grounded.func hs)) (ih.made.stays ⟨hf, hbody⟩)
  | build _ d ih => exact ih.build d
  | gather _ hvs ih =>
    exact ih.reaches (ih.obeys.newList fun v hv => (ih.held v (hvs hv)).1)
      (ih.made.newList fun v hv => (ih.held v (hvs hv)).2)
  | wrap _ hv ih =>
    obtain ⟨hadmits, hmade⟩ := ih.held _ hv
    exact ih.reaches (ih.obeys.stays (Value.RefersBelow.returned hadmits)) (ih.made.stays hmade)
  | @get m held _ s name v hv ih =>
    obtain ⟨t, -, ht⟩ := Scopes.exists_own?_of_get? hv
    exact ih.reaches (ih.obeys.stays (ih.obeys.bound t name v ht))
      (ih.made.stays (ih.made.bound t name v ht))
  | bind _ hv s name ih =>
    obtain ⟨hadmits, hmade⟩ := ih.held _ hv
    exact ih.grows ⟨Nat.le_of_eq (Scopes.size_set ..).symm, Nat.le_refl _⟩
      (ih.obeys.set hadmits s name) (ih.made.set hmade s name)
  | bindGlobal _ hv s name ih =>
    obtain ⟨hadmits, hmade⟩ := ih.held _ hv
    exact ih.grows ⟨Nat.le_of_eq (Scopes.size_set ..).symm, Nat.le_refl _⟩
      (ih.obeys.set hadmits _ name) (ih.made.set hmade _ name)
  | takeFaults _ ih => exact ih.takeFaults

theorem Machine.Arises.runAll {codes : List Code} {m m' : Machine} {held vs : List Value}
    (h : Machine.Arises codes m held) {jobs : List Job}
    (hb : ∀ job ∈ jobs, job.context.builtins = .standard) (hcodes : ∀ job ∈ jobs, job.code ∈ codes)
    (hs : ∀ job ∈ jobs, job.scope < m.scopes.size) (hvs : Job.runAll jobs m = some (vs, m')) :
    Machine.Arises codes m' (vs.reverse ++ held) := by
  induction jobs generalizing m held vs with
  | nil =>
    cases hvs
    exact h
  | cons job jobs ih =>
    rw [List.forall_mem_cons] at hb hcodes hs
    obtain ⟨⟨v, m₁⟩, hv, hrest⟩ := Option.bind_eq_some_iff.1 hvs
    obtain ⟨⟨ws, m₂⟩, hws, hcons⟩ := Option.bind_eq_some_iff.1 hrest
    cases hcons
    have hrespect : job.context.builtins.Respect .grounded :=
      hb.1 ▸ Builtins.standard_respect _
    have hgrown : m.Grown m₁ :=
      (evalProgram_reaches hrespect h.accounted.obeys hs.1 job.fuel job.code v m₁ hv).grown
    have hafter := ih (h.run hb.1 hcodes.1 hs.1 hv) hb.2 hcodes.2
      (fun job hjob => Nat.lt_of_lt_of_le (hs.2 job hjob) hgrown.scopes) hws
    simpa using hafter

/-- In every state that programs numbered one after the other bring about, comparing two of its
values comes to an end, with what `Value.equal` says; this is an equivalence, and equal values have
the same texts, kind and truth value. -/
theorem equal_values_look_alike {programs : List Program} {next : Nat} {m : Machine}
    {held : List Value} (h : Machine.Arises (labelPrograms next programs) m held) :
    (∀ v w, m.Has held v → m.Has held w → ∀ same,
      v.Compared m.lists w same ↔ same = v.equal m.lists w) ∧
    (∀ v, m.Has held v → v.equal m.lists v = true) ∧
    (∀ v w, m.Has held v → m.Has held w → v.equal m.lists w = true → w.equal m.lists v = true) ∧
    (∀ u v w, m.Has held u → m.Has held v → m.Has held w →
      u.equal m.lists v = true → v.equal m.lists w = true → u.equal m.lists w = true) ∧
    ∀ v w, m.Has held v → m.Has held w → v.equal m.lists w = true →
      v.display m.lists = w.display m.lists ∧ v.code m.lists = w.code m.lists ∧
      v.kind = w.kind ∧ v.truthy m.lists = w.truthy m.lists := by
  have haccounted := h.accounted
  have hlabelled : Labelled (· ∈ (labelPrograms next programs).flatMap Block.lambdas) :=
    fun _ _ => lambda_eq_of_label_eq
  have hlists := haccounted.made.listed
  have hgrounded := Machine.grounded_iff.2 haccounted.obeys
  refine ⟨fun v w hv hw => ?_, fun v _ => v.equal_refl m.lists, fun v w _ _ => Value.equal_symm,
    fun u v w _ _ _ => Value.equal_trans, fun v w hv hw heq => ?_⟩
  · exact hgrounded.compared_iff (haccounted.of_has hv).1 (haccounted.of_has hw).1
  · have hv := (haccounted.of_has hv).2
    have hw := (haccounted.of_has hw).2
    exact ⟨Value.display_eq_of_equal hlabelled hlists heq hv hw,
      Value.code_eq_of_equal hlabelled hlists heq hv hw, (Value.equal_iff.1 heq).kind_eq,
      Value.truthy_eq_of_equal heq⟩

/-- A program that is run twice in one scope and once in another. Each run makes lists of its own. -/
theorem equal_values_look_alike_of_runs :
    let program : Program := [.var "f" (.func () ["x"] [.expr (.ident "x")]),
      .expr (.list [.ident "f", .list [.int 1]])]
    let job (s : ScopeId) : Job :=
      ⟨{ options := {}, builtins := .standard, sink := .unlimited }, 20, (program.label 0).1, s⟩
    let m := (Machine.empty.newRoot.2.enclose 0 []).2
    ∃ m', Job.runAll [job 0, job 0, job 1] m = some ([.list 1, .list 3, .list 5], m') ∧
      Machine.Arises (labelPrograms 0 [program]) m' [.list 5, .list 3, .list 1] ∧
      (Value.list 1).equal m'.lists (.list 3) = true ∧
      (Value.list 1).equal m'.lists (.list 5) = false ∧
      (Value.list 1).display m'.lists = "[func(x) \x7bx\x7d, [1]]" ∧
      (Value.list 3).display m'.lists = "[func(x) \x7bx\x7d, [1]]" := by
  intro program job m
  let look (r : List Value × Machine) :=
    (r.1, (Value.list 1).equal r.2.lists (.list 3), (Value.list 1).equal r.2.lists (.list 5),
      (Value.list 1).display r.2.lists)
  have hrun : (Job.runAll [job 0, job 0, job 1] m).map look =
      some ([.list 1, .list 3, .list 5], true, false, "[func(x) \x7bx\x7d, [1]]") := by
    decide +kernel
  obtain ⟨⟨vs, m'⟩, hvs, hlook⟩ := Option.map_eq_some_iff.1 hrun
  simp only [look, Prod.mk.injEq] at hlook
  obtain ⟨rfl, hequal, hdiffer, htext⟩ := hlook
  have hm : Machine.Arises (labelPrograms 0 [program]) m [] :=
    Machine.Arises.empty.newRoot.enclose (by decide)
  have harises : Machine.Arises (labelPrograms 0 [program]) m' [.list 5, .list 3, .list 1] :=
    hm.runAll (by simp [job]) (by simp [job, labelPrograms]) (by decide) hvs
  obtain ⟨-, -, -, -, hlike⟩ := equal_values_look_alike harises
  have htext' := (hlike (.list 1) (.list 3) (.held (by simp)) (.held (by simp)) hequal).1
  exact ⟨m', hvs, harises, hequal, hdiffer, htext, htext' ▸ htext⟩

end Scriptlet
