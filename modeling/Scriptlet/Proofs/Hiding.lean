import Scriptlet.Proofs.Accord

/-!
# Names of built-in functions cannot be hidden

A name of a built-in function means that function in every scope. What scopes bind such a name to is
never looked up by evaluation, so it may be anything or nothing: a `var`, a parameter or a binding
that an embedder made under such a name is not noticed. Only a built-in function can find it, by
looking into the scope that a function captured. The standard ones do not look into scopes.
-/

namespace Scriptlet

/-- Runs whose scopes bind the names of some built-in functions differently, or only one of them. -/
def Accord.beside (builtins : Builtins) : Accord where
  names name := ¬builtins.has name = true
  faults := (· = ·)
  console := (· = ·)

/-- No built-in function can tell what scopes bind the names of built-in functions to. -/
def Builtins.DisregardNames (builtins : Builtins) : Prop :=
  ∀ b ∈ builtins.table, b.BlindTo (Scopes.AgreeOn (¬builtins.has · = true))

theorem Builtins.disregardNames_of_scopeless {builtins : Builtins}
    (h : ∀ b ∈ builtins.table, b.Scopeless) : builtins.DisregardNames :=
  fun b hb => (h b hb).blindTo _

namespace Machine.Agree

variable {builtins : Builtins} {m m' : Machine} {name : String}

theorem settle (h : m.Agree (.beside builtins) m') (r : Except Fault Value) :
    (m.settle r).1 = (m'.settle r).1 ∧ (m.settle r).2.Agree (.beside builtins) (m'.settle r).2 := by
  cases r with
  | ok v => exact ⟨rfl, h⟩
  | error fault =>
    exact ⟨rfl, h.scopes, h.lists_eq, congrArg (Array.push · fault) h.faults, h.console⟩

theorem callBuiltin (h : m.Agree (.beside builtins) m') {b : Builtin}
    (hb : b.BlindTo (Scopes.AgreeOn (¬builtins.has · = true))) (sink : Sink) (args : List Value) :
    (Accord.beside builtins).EndAlike (m.callBuiltin sink b args) (m'.callBuiltin sink b args) := by
  have hcall := Machine.callBuiltin_of_blindTo hb h.scopes h.lists_eq h.console sink args
  generalize m.callBuiltin sink b args = o, m'.callBuiltin sink b args = o' at hcall ⊢
  cases hcall with
  | none => exact .none
  | some hr =>
    obtain ⟨result, store, store', rfl, rfl, hscopes, hlists, hconsole⟩ := hr
    have hafter : (m.withStore store).Agree (.beside builtins) (m'.withStore store') :=
      ⟨hscopes, hlists, h.faults, hconsole⟩
    exact .some (hafter.settle result)

/-- A scope may bind the name of a built-in function in addition. -/
theorem bind (m : Machine) (s : ScopeId) (hname : builtins.has name = true) (v : Value) :
    m.Agree (.beside builtins) (m.bind s name v) where
  scopes := by
    refine ⟨(Scopes.size_set ..).symm, fun t => (Scopes.outer?_set ..).symm, ?_⟩
    intro t other hother
    have hne : other ≠ name := fun heq => hother (heq ▸ hname)
    rw [Machine.bind, Scopes.own?_set, if_neg fun hset => hne hset.2.2]
  lists_eq := rfl
  faults := rfl
  console := rfl

/-- A new scope may do so as well. -/
theorem enclose (m : Machine) (outer : ScopeId) (bindings : Bindings)
    (hname : builtins.has name = true) (v : Value) :
    (m.enclose outer bindings).2.Agree (.beside builtins)
      (m.enclose outer (bindings.bind name v)).2 := by
  have hm : m.Agree (.beside builtins) m := ⟨.refl _, rfl, rfl, rfl⟩
  refine (Accord.enclose hm outer fun other hother => ?_).2
  have hne : other ≠ name := fun heq => hother (heq ▸ hname)
  rw [Bindings.lookup_bind, if_neg hne]

end Machine.Agree

theorem Accord.beside_kept {ctx : Context} (hb : ctx.builtins.DisregardNames) :
    (Accord.beside ctx.builtins).Kept ctx ctx where
  options_eq := rfl
  builtins_eq := rfl
  ownScope_eq := rfl
  names _ hname := hname
  note h fault := congrArg (Array.push · fault) h
  callBuiltin hmem hm args := hm.callBuiltin (hb _ hmem) ctx.sink args

/-- Bindings of names of built-in functions are never noticed, unless by a built-in function. From
two states that differ in such bindings a program ends or not alike, with the same value, lists,
faults and output, and in states that differ in such bindings again. States that do so are those
before and after such a name is bound in a scope, by a `var` or from outside, and those in which a
scope was added with and without it, as for a call of a function with such a parameter. -/
theorem builtin_names_unhidable {ctx : Context} (hb : ctx.builtins.DisregardNames) :
    (∀ m m' : Machine, m.Agree (.beside ctx.builtins) m' → ∀ s fuel code,
      (Accord.beside ctx.builtins).EndAlike (evalProgram ctx fuel code s m)
        (evalProgram ctx fuel code s m')) ∧
    ∀ (m : Machine) s name v, ctx.builtins.has name = true →
      m.Agree (.beside ctx.builtins) (m.bind s name v) ∧
      ∀ bindings, (m.enclose s bindings).2.Agree (.beside ctx.builtins)
        (m.enclose s (bindings.bind name v)).2 :=
  ⟨fun _ _ hm s fuel code => (Accord.beside_kept hb).evalProgram hm fuel code s,
    fun m s _ v hname => ⟨.bind m s hname v, fun bindings => .enclose m s bindings hname v⟩⟩

/-- A function that an embedder bound to `len`, and a parameter `print`. Both names mean what they
mean without these bindings, and the binding of `len` is still there in the end. -/
theorem builtin_names_unhidable_by_parameter :
    let m : Machine := ⟨⟨#[⟨none, [("xs", .list 0)]⟩]⟩, ⟨#[[.nil, .nil]]⟩, .empty, #[]⟩
    let own : Value := .func ⟨9, [], [.ret (.int 5)], 0⟩
    let ctx : Context := { options := {}, builtins := .standard, sink := .unlimited }
    let code : Code := [
      .var "f" (.func 0 ["print"] [
        .expr (.call (.ident "print") [.call (.ident "len") [.ident "xs"]]),
        .ret (.ident "len")]),
      .expr (.call (.ident "f") [.int 3])]
    m.Agree (.beside .standard) (m.bind 0 "len" own) ∧
    ∃ r r', evalProgram ctx 20 code 0 m = some r ∧
      evalProgram ctx 20 code 0 (m.bind 0 "len" own) = some r' ∧
      r.1 = .builtin "len" ∧ r.2.console.text = "2\n" ∧ r.2.scopes.own? 0 "len" = none ∧
      r'.2.scopes.own? 0 "len" = some own ∧ r.1 = r'.1 ∧ r.2.Agree (.beside .standard) r'.2 := by
  intro m own ctx code
  have hb : ctx.builtins.DisregardNames :=
    Builtins.disregardNames_of_scopeless Builtins.standard_scopeless
  obtain ⟨hends, hbinds⟩ := builtin_names_unhidable hb
  have hm : m.Agree (.beside .standard) (m.bind 0 "len" own) :=
    (hbinds m 0 "len" own (by decide)).1
  have hrun : (evalProgram ctx 20 code 0 m).map (fun r =>
      (r.1, r.2.console.text, r.2.scopes.own? 0 "len")) = some (.builtin "len", "2\n", none) := by
    decide +kernel
  have hbound : (evalProgram ctx 20 code 0 (m.bind 0 "len" own)).map
      (·.2.scopes.own? 0 "len") = some (some own) := by
    decide +kernel
  have hrel := hends m (m.bind 0 "len" own) hm 0 20 code
  obtain ⟨r, hr, hseen⟩ := Option.map_eq_some_iff.1 hrun
  obtain ⟨r', hr', hown⟩ := Option.map_eq_some_iff.1 hbound
  rw [hr, hr'] at hrel
  simp only [Prod.mk.injEq] at hseen
  cases hrel with
  | some h => exact ⟨hm, r, r', hr, hr', hseen.1, hseen.2.1, hseen.2.2, hown, h.1, h.2⟩

def Builtin.peek (name : String) : Builtin where
  name := "peek"
  action := fun _ args store =>
    match args with
    | [.func c] => some (.ok ((store.scopes.get? c.scope name).getD .nil), store)
    | _ => some (.error (.arity 1 args.length), store)

/-- With a built-in function that looks into scopes it can be noticed whether `len` is bound. -/
theorem builtin_names_seen_by_peeking :
    let builtins := Builtins.standard.register (.peek "len")
    let ctx : Context := { options := {}, builtins, sink := .unlimited }
    let m := Machine.empty.newRoot.2
    let code : Code := [.expr (.call (.ident "peek") [.func 0 [] []])]
    m.Agree (.beside builtins) (m.bind 0 "len" (.int 1)) ∧
    (evalProgram ctx 5 code 0 m).map (·.1) = some .nil ∧
    (evalProgram ctx 5 code 0 (m.bind 0 "len" (.int 1))).map (·.1) = some (.int 1) :=
  ⟨.bind _ 0 (by decide) _, by decide +kernel, by decide +kernel⟩

end Scriptlet
