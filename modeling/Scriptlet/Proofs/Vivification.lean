import Scriptlet.Cli
import Scriptlet.Proofs.Unset

/-!
# Binding unset names has no effect

Whether names that mean nothing are bound to nil makes no difference to programs that run one after
the other in a session, and none to what the command writes to its output, for a file as in the
shell. Only notes tell.
-/

namespace Scriptlet

/-! ## Programs one after the other -/

def Session.evaluateAll (session : Session) (s : ScopeId) :
    List (Nat × Program) → Option (List Value × Session)
  | [] => some ([], session)
  | (fuel, program) :: rest =>
    (session.evaluate fuel program s).bind fun (v, session) =>
      (session.evaluateAll s rest).map fun (vs, session) => (v :: vs, session)

def Session.withUnset (session : Session) (unset : UnsetNames) : Session :=
  { session with context := session.context.withUnset unset }

/-- Two sessions in a context, of which the first one binds names that mean nothing. -/
structure Session.Vivified (ctx : Context) (session plain : Session) : Prop where
  context_eq : session.context = ctx.withUnset .vivify
  plain_context_eq : plain.context = ctx.withUnset .nil
  nextLabel_eq : session.nextLabel = plain.nextLabel
  inOrder : session.machine.Scoped
  machine : session.machine.Vivified plain.machine

namespace Session

variable {ctx : Context} {session plain : Session} {s : ScopeId}

theorem vivified_withUnset (h : session.machine.Scoped) :
    Vivified session.context (session.withUnset .vivify) (session.withUnset .nil) :=
  ⟨rfl, rfl, rfl, h, .refl _⟩

/-- Both sessions evaluate a program alike. -/
theorem Vivified.evaluate (h : Vivified ctx session plain) (hb : ctx.builtins.Respect .scoped)
    (hblind : ctx.builtins.DisregardUnset)
    (hs : s < session.machine.scopes.size) (fuel : Nat) (program : Program) :
    Option.Rel (fun r r' => r.1 = r'.1 ∧ Vivified ctx r.2 r'.2 ∧ s < r.2.machine.scopes.size)
      (session.evaluate fuel program s) (plain.evaluate fuel program s) := by
  have hstate : Coupling.vivifying.state session.machine.scopes.size session.machine
      plain.machine := ⟨rfl, h.inOrder, h.machine⟩
  have hends := Coupling.evalProgram_ends (Coupling.vivifying_sound hb hblind) hstate ⟨rfl, hs⟩ fuel
    (program.label plain.nextLabel).1
  simp only [Session.evaluate, h.context_eq, h.plain_context_eq, h.nextLabel_eq]
  generalize evalProgram _ fuel _ s session.machine = o at hends ⊢
  generalize evalProgram _ fuel _ s plain.machine = o' at hends ⊢
  cases hends with
  | none => exact .none
  | some hmet =>
    obtain ⟨n, hn, ⟨hsize, hscoped, hmachine⟩, hv⟩ := hmet
    refine .some ⟨(Value.alike_sameBelow_iff.1 hv).1, ⟨rfl, rfl, rfl, hscoped, hmachine⟩, ?_⟩
    exact hsize ▸ Nat.lt_of_lt_of_le hs hn

theorem Vivified.evaluateAll (h : Vivified ctx session plain) (hb : ctx.builtins.Respect .scoped)
    (hblind : ctx.builtins.DisregardUnset)
    (hs : s < session.machine.scopes.size) (programs : List (Nat × Program)) :
    Option.Rel (fun r r' => r.1 = r'.1 ∧ Vivified ctx r.2 r'.2)
      (session.evaluateAll s programs) (plain.evaluateAll s programs) := by
  induction programs generalizing session plain with
  | nil => exact .some ⟨rfl, h⟩
  | cons step rest ih =>
    obtain ⟨fuel, program⟩ := step
    have hfirst := h.evaluate hb hblind hs fuel program
    simp only [Session.evaluateAll]
    generalize session.evaluate fuel program s = o at hfirst ⊢
    generalize plain.evaluate fuel program s = o' at hfirst ⊢
    cases hfirst with
    | none => exact .none
    | @some r r' hr =>
      obtain ⟨hv, hsession, hs'⟩ := hr
      have hrest := ih hsession hs'
      simp only [Option.bind_some, hv]
      generalize r.2.evaluateAll s rest = q at hrest ⊢
      generalize r'.2.evaluateAll s rest = q' at hrest ⊢
      cases hrest with
      | none => exact .none
      | some hvs => exact .some ⟨congrArg (r'.1 :: ·) hvs.1, hvs.2⟩

/-- Both sessions read a text alike, and evaluate it alike if it has no errors. -/
theorem Vivified.run (h : Vivified ctx session plain) (hb : ctx.builtins.Respect .scoped)
    (hblind : ctx.builtins.DisregardUnset)
    (hs : s < session.machine.scopes.size) (fuel : Nat) (source : String) :
    Option.Rel (fun r r' => r.1 = r'.1 ∧ Vivified ctx r.2 r'.2 ∧ s < r.2.machine.scopes.size)
      (session.run fuel source s) (plain.run fuel source s) := by
  have hevaluate := h.evaluate hb hblind hs fuel (parse source).program
  simp only [Session.run]
  by_cases herrors : (parse source).errors = []
  · rw [if_pos herrors, if_pos herrors]
    generalize session.evaluate fuel _ s = o at hevaluate ⊢
    generalize plain.evaluate fuel _ s = o' at hevaluate ⊢
    cases hevaluate with
    | none => exact .none
    | some hr => exact .some ⟨congrArg Except.ok hr.1, hr.2⟩
  · rw [if_neg herrors, if_neg herrors]
    exact .some ⟨rfl, h, hs⟩

theorem Vivified.printedSince_eq {session₁ plain₁ : Session} (h : Vivified ctx session plain)
    (h₁ : Vivified ctx session₁ plain₁) :
    session₁.printedSince session = plain₁.printedSince plain := by
  rw [printedSince, printedSince, h₁.machine.console_eq, h.machine.console_eq]

end Session

/-! ## The command -/

structure Report.Agree (report plain : Report) : Prop where
  status_eq : report.status = plain.status
  output_eq : report.output = plain.output

theorem Report.Agree.andThen {first first' next next' : Report} (h : first.Agree first')
    (hnext : next.Agree next') : (first.andThen next).Agree (first'.andThen next') :=
  ⟨hnext.status_eq, by simp only [Report.andThen, h.output_eq, hnext.output_eq]⟩

/-- Two shells, of which the first one binds names that mean nothing. -/
structure Shell.Vivified (ctx : Context) (shell plain : Shell) : Prop where
  session : Session.Vivified ctx shell.session plain.session
  global_eq : shell.global = plain.global
  global_lt : shell.global < shell.session.machine.scopes.size

inductive Turn.Vivified (ctx : Context) : Turn → Turn → Prop
  | leave : Vivified ctx .leave .leave
  | reply {report report' : Report} {next next' : Shell} (h : report.Agree report')
      (hnext : next.Vivified ctx next') : Vivified ctx (.reply report next) (.reply report' next')

namespace Shell

variable {ctx : Context} {shell plain : Shell}

/-- Both shells answer a line alike, and go on alike. -/
theorem Vivified.turn (h : shell.Vivified ctx plain) (hb : ctx.builtins.Respect .scoped)
    (hblind : ctx.builtins.DisregardUnset)
    (fuel : Nat) (line : String) :
    Option.Rel (Turn.Vivified ctx) (shell.turn fuel line) (plain.turn fuel line) := by
  have hrun := h.session.run hb hblind h.global_lt fuel line
  unfold Shell.turn
  dsimp only
  split
  · exact .some .leave
  · split
    · exact .some (.reply ⟨rfl, rfl⟩ h)
    · rw [← h.global_eq]
      generalize shell.session.run fuel line shell.global = o at hrun ⊢
      generalize plain.session.run fuel line shell.global = o' at hrun ⊢
      cases hrun with
      | none => exact .none
      | @some r r' hr =>
        obtain ⟨result, session⟩ := r
        obtain ⟨result', session'⟩ := r'
        obtain ⟨rfl, hsession, hlt⟩ := hr
        refine .some (.reply ⟨rfl, ?_⟩ ⟨?_, rfl, hlt⟩)
        · dsimp only
          rw [h.session.printedSince_eq hsession, hsession.machine.lists_eq]
        · obtain ⟨hcontext, hplain, hlabel, hscoped, hmachine⟩ := hsession
          exact ⟨hcontext, hplain, hlabel, ⟨hscoped.outer, hscoped.bound, hscoped.listed⟩,
            hmachine.scopes, hmachine.lists_eq, hmachine.console_eq, .nil⟩

/-- Both shells answer all lines alike. -/
theorem Vivified.answer (hb : ctx.builtins.Respect .scoped)
    (hblind : ctx.builtins.DisregardUnset) (fuel : Nat)
    (lines : List (Option String)) (h : shell.Vivified ctx plain) :
    Option.Rel Report.Agree (shell.answer fuel lines) (plain.answer fuel lines) := by
  induction lines generalizing shell plain with
  | nil => exact .some ⟨rfl, rfl⟩
  | cons line lines ih =>
    cases line with
    | none => exact .some ⟨rfl, rfl⟩
    | some line =>
      have hturn := h.turn hb hblind fuel line
      simp only [Shell.answer]
      generalize shell.turn fuel line = o at hturn ⊢
      generalize plain.turn fuel line = o' at hturn ⊢
      cases hturn with
      | none => exact .none
      | some hturn =>
        cases hturn with
        | leave => exact .some ⟨rfl, rfl⟩
        | @reply report report' next next' hreport hnext =>
          have hrest := ih hnext
          dsimp only
          generalize next.answer fuel lines = q at hrest ⊢
          generalize next'.answer fuel lines = q' at hrest ⊢
          cases hrest with
          | none => exact .none
          | some hr => exact .some (hreport.andThen hr)

end Shell

namespace Cli

/-- The shells that a command starts with and without `--no-vivify`. -/
theorem vivified_start (inv : Invocation) :
    Shell.Vivified ⟨inv.options, .standard, .unlimited, Block.binds⟩
      (.start { inv with noVivify := false }.options inv.diagnostics)
      (.start { inv with noVivify := true }.options inv.diagnostics) where
  session := ⟨rfl, rfl, rfl, Machine.scoped_newRoot, .refl _⟩
  global_eq := rfl
  global_lt := Nat.zero_lt_one

/-- A program in a file is run alike whether names that mean nothing are bound or not. -/
theorem runSource_agree (inv : Invocation) (fuel : Nat) (source : String) :
    Option.Rel Report.Agree (runSource { inv with noVivify := false } fuel source)
      (runSource { inv with noVivify := true } fuel source) := by
  have h := vivified_start inv
  have hrun := h.session.run (Builtins.standard_respect _)
    Builtins.standard_disregardUnset h.global_lt fuel source
  rw [runSource, runSource, ← h.global_eq]
  generalize Session.run _ fuel source _ = o at hrun ⊢
  generalize Session.run _ fuel source _ = o' at hrun ⊢
  cases hrun with
  | none => exact .none
  | @some r r' hr =>
    obtain ⟨result, session⟩ := r
    obtain ⟨result', session'⟩ := r'
    obtain ⟨rfl, hsession, -⟩ := hr
    have hlists : session.machine.lists = session'.machine.lists := hsession.machine.lists_eq
    cases result with
    | error errors => exact .some ⟨rfl, rfl⟩
    | ok v =>
      refine .some ⟨rfl, ?_⟩
      simp only [h.session.printedSince_eq hsession, hlists]

/-- The command writes the same to its output whether its arguments ask for unset names to be left
unbound or not. -/
theorem run_agree {reader : Reader} {inv : Invocation} {args args' : List String}
    (h : reader args = .ok { inv with noVivify := false })
    (h' : reader args' = .ok { inv with noVivify := true }) (fuel : Nat)
    (files : String → Except FileError String) (lines : List (Option String)) :
    Option.Rel Report.Agree (run reader fuel args files lines)
      (run reader fuel args' files lines) := by
  have hanswer := (vivified_start inv).answer (Builtins.standard_respect _)
    Builtins.standard_disregardUnset fuel lines
  simp only [run, h, h']
  generalize Shell.answer fuel _ lines = o at hanswer ⊢
  generalize Shell.answer fuel _ lines = o' at hanswer ⊢
  cases inv.file with
  | some path =>
    simp only [runFile]
    cases files path with
    | error e => exact .some ⟨rfl, rfl⟩
    | ok source => exact runSource_agree { inv with file := some path } fuel source
  | none =>
    cases hanswer with
    | none => exact .none
    | some hr => exact .some (Report.Agree.andThen ⟨rfl, rfl⟩ hr)

end Cli

/-- Binding names that mean nothing changes nothing but what is bound to nil outermost and which
notes there are: not the value of any program of a sequence, nor whether it ends, nor what it prints
and does to lists. So the command never writes anything else to its output because it is asked not to
bind such names, however its arguments are read. -/
theorem vivification_unobservable :
    (∀ session : Session, session.context.builtins.Respect .scoped →
      session.context.builtins.DisregardUnset → session.machine.Scoped →
      ∀ s < session.machine.scopes.size, ∀ programs,
        Option.Rel (fun r r' => r.1 = r'.1 ∧ r.2.machine.Vivified r'.2.machine)
          ((session.withUnset .vivify).evaluateAll s programs)
          ((session.withUnset .nil).evaluateAll s programs)) ∧
    ∀ (reader : Cli.Reader) (inv : Cli.Invocation) args args',
      reader args = .ok { inv with noVivify := false } →
      reader args' = .ok { inv with noVivify := true } →
        ∀ fuel files lines, Option.Rel Report.Agree (Cli.run reader fuel args files lines)
          (Cli.run reader fuel args' files lines) := by
  refine ⟨fun session hb hblind hm s hs programs => ?_, fun reader inv args args' h h' => ?_⟩
  · have hsessions := (Session.vivified_withUnset hm).evaluateAll hb hblind hs programs
    generalize (session.withUnset .vivify).evaluateAll s programs = o at hsessions ⊢
    generalize (session.withUnset .nil).evaluateAll s programs = o' at hsessions ⊢
    cases hsessions with
    | none => exact .none
    | some hr => exact .some ⟨hr.1, hr.2.machine⟩
  · exact Cli.run_agree h h'

/-- A function reads a name that means nothing, in two programs, and in the second one behind a
`var` of that name. Without a binding to nil the name is noted twice. -/
theorem vivification_unobservable_of_closure :
    let session := Session.start ⟨{}, .standard, .unlimited, Block.binds⟩
    let programs : List (Nat × Program) := [
      (20, [.var "f" (.func () [] [.expr (.ident "y")]), .expr (.call (.ident "f") [])]),
      (20, [.expr (.ident "y"), .var "y" (.int 3), .expr (.call (.ident "f") [])])]
    session.machine.Scoped ∧
    (∃ after plain,
      (session.withUnset .vivify).evaluateAll 0 programs = some ([.nil, .int 3], after) ∧
      (session.withUnset .nil).evaluateAll 0 programs = some ([.nil, .int 3], plain) ∧
      after.faults = [.unbound "y"] ∧ plain.faults = [.unbound "y", .unbound "y"] ∧
      after.machine.Vivified plain.machine) ∧
    let reader : Cli.Reader := fun args => .ok {
      file := args.find? (!·.startsWith "--")
      strictArity := args.contains "--strict-arity"
      noVivify := args.contains "--no-vivify" }
    ∀ fuel files lines, Option.Rel Report.Agree
      (Cli.run reader fuel ["--strict-arity", "a"] files lines)
      (Cli.run reader fuel ["--no-vivify", "--strict-arity", "a"] files lines) := by
  intro session programs
  have hm : session.machine.Scoped := Machine.scoped_newRoot
  obtain ⟨hsessions, hcommand⟩ := vivification_unobservable
  refine ⟨hm, ?_, ?_⟩
  · let run := (session.withUnset .vivify).evaluateAll 0 programs
    let plainRun := (session.withUnset .nil).evaluateAll 0 programs
    have hrun : run.map (fun r => (r.1, r.2.faults)) = some ([.nil, .int 3], [.unbound "y"]) := by
      decide +kernel
    have hplain : plainRun.map (fun r => (r.1, r.2.faults)) =
        some ([.nil, .int 3], [.unbound "y", .unbound "y"]) := by
      decide +kernel
    have hrel := hsessions session (Builtins.standard_respect _) Builtins.standard_disregardUnset
      hm 0 (by decide) programs
    obtain ⟨⟨vs, after⟩, hafter, hr⟩ := Option.map_eq_some_iff.1 hrun
    obtain ⟨⟨vs', plain⟩, hplain, hr'⟩ := Option.map_eq_some_iff.1 hplain
    obtain ⟨rfl, hfaults⟩ := Prod.mk.inj hr
    obtain ⟨rfl, hfaults'⟩ := Prod.mk.inj hr'
    rw [show (session.withUnset .vivify).evaluateAll 0 programs = _ from hafter,
      show (session.withUnset .nil).evaluateAll 0 programs = _ from hplain] at hrel
    cases hrel with
    | some hr => exact ⟨after, plain, hafter, hplain, hfaults, hfaults', hr.2⟩
  · intro reader
    let inv : Cli.Invocation := { file := some "a", strictArity := true }
    exact hcommand reader inv _ _ (by decide +kernel) (by decide +kernel)

end Scriptlet
