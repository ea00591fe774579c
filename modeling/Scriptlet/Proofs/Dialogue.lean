import Scriptlet.Cli
import Scriptlet.Proofs.Layout
import Scriptlet.Proofs.RoundTrip

/-!
# Lines that a shell rejects

A line that is blank or cannot be read leaves a shell as it was, so it may be put between any two
lines of a dialogue: all other lines are answered as without it. What carries this is that no fault
waits between two lines (`Shell.Quiet`), because a shell forgets faults after every line, whether it
shows them or not. So the notes behind a line are about this line alone, and asking for notes
changes nothing but the notes.
-/

namespace Scriptlet

open Grammar Text

/-! ## The word on a line -/

def Shell.word (line : String) : String :=
  String.ofList (trim line.toList)

def Shell.Leaves (line : String) : Prop :=
  word line = "exit" ∨ word line = "quit"

/-- Whether a line is blank or has parse errors. -/
def Shell.Rejects (line : String) : Prop :=
  word line = "" ∨ (parse line).errors ≠ []

def Shell.rejection (line : String) : Report :=
  if word line = "" then .silent else ⟨0, parseErrorReport (parse line).errors, ""⟩

theorem exists_eq_trim (text : List Char) : ∃ before behind : List Char,
    before.all isBlank = true ∧ behind.all isBlank = true ∧
      text = before ++ (trim text ++ behind) := by
  refine ⟨text.takeWhile isBlank, ((text.dropWhile isBlank).reverse.takeWhile isBlank).reverse,
    List.all_takeWhile, ?_, ?_⟩
  · rw [List.all_reverse]
    exact List.all_takeWhile
  · rw [trim, ← List.reverse_append, List.takeWhile_append_dropWhile, List.reverse_reverse,
      List.takeWhile_append_dropWhile]

/-- A name on a line of its own is a program. -/
theorem parse_of_word {line name : String} (hname : isName name = true)
    (hline : Shell.word line = name) : parse line = ⟨[.expr (.ident name)], []⟩ := by
  obtain ⟨before, behind, hbefore, hbehind, htext⟩ := exists_eq_trim line.toList
  have hword : trim line.toList = name.toList := by
    rw [← hline, Shell.word, String.toList_ofList]
  have hapart : Apart behind := by simpa using apart_of_blank [] hbehind fun _ => rfl
  have hnone : lexemes behind = [] := by simpa using lexemes_blanks_append [] hbehind
  refine parse_of_lexemes ?_
  rw [htext, hword, lexemes_blanks_append _ hbefore, lexes_name hname behind hapart, hnone]
  exact statements_singleton (Suffixed.binary (.primary .ident) (Nat.zero_le _))

theorem parse_of_blank {line : String} (hline : Shell.word line = "") : parse line = ⟨[], []⟩ := by
  obtain ⟨before, behind, hbefore, hbehind, htext⟩ := exists_eq_trim line.toList
  have hword : trim line.toList = [] := String.ofList_eq_empty_iff.1 hline
  refine parse_of_lexemes ?_
  rw [htext, hword, lexemes_blanks_append _ hbefore, ← List.append_nil ([] ++ behind),
    List.nil_append, lexemes_blanks_append _ hbehind, lexemes_nil]
  exact .nil

theorem Shell.not_leaves_of_rejects {line : String} (h : Rejects line) : ¬Leaves line := by
  rintro (hword | hword)
  all_goals
    refine h.elim (fun hblank => ?_) fun herrors => herrors ?_
    · rw [hword] at hblank
      exact absurd hblank (by decide)
    · rw [parse_of_word (by decide +kernel) hword]

/-! ## One line -/

/-- The faults that reading and evaluating a text adds to those that wait already. -/
def Session.recorded (session : Session) (fuel : Nat) (source : String) (s : ScopeId) :
    List Fault :=
  match session.run fuel source s with
  | some (_, after) => after.faults.drop session.faults.length
  | none => []

theorem Session.printedSince_self (session : Session) : session.printedSince session = "" := by
  simp [printedSince]

theorem Session.recorded_of_blank {line : String} (h : Shell.word line = "") (session : Session)
    (fuel : Nat) (s : ScopeId) : session.recorded fuel line s = [] := by
  rw [recorded, run, parse_of_blank h, if_pos rfl]
  cases fuel <;>
    simp [evaluate, Program.label, labelBlock, evalProgram, evalBlock, Outcome.arrive, faults]

namespace Shell

def Quiet (shell : Shell) : Prop :=
  shell.session.machine.faults = #[]

variable {shell next : Shell} {fuel : Nat} {line : String} {report : Report}

theorem quiet_start (options : Options) (notes : Bool) : (start options notes).Quiet := rfl

def replyTo (shell : Shell) (result : Except (List ParseError) Value) (after : Session) : Turn :=
  let lists := after.machine.lists
  let shown := match result with
    | .ok v => v.code lists ++ "\n"
    | .error errors => parseErrorReport errors
  let notes := if shell.notes then faultNotes lists after.faults else ""
  .reply ⟨0, after.printedSince shell.session ++ shown, notes⟩
    { shell with session := after.takeFaults.2 }

theorem turn_of_leaves (shell : Shell) (fuel : Nat) (h : Leaves line) :
    shell.turn fuel line = some .leave :=
  if_pos h

theorem turn_of_blank (shell : Shell) (fuel : Nat) (h : word line = "") :
    shell.turn fuel line = some (.reply .silent shell) := by
  have hleaves : ¬Leaves line := not_leaves_of_rejects (.inl h)
  exact (if_neg hleaves).trans (if_pos h)

/-- Any other line is run. -/
theorem turn_of_word (shell : Shell) (fuel : Nat) (hleaves : ¬Leaves line) (h : word line ≠ "") :
    shell.turn fuel line = (shell.session.run fuel line shell.global).map fun (result, after) =>
      shell.replyTo result after :=
  (if_neg hleaves).trans (if_neg h)

/-- All that a shell can make of a line. -/
theorem turn_cases {turn : Turn} (h : shell.turn fuel line = some turn) :
    (Leaves line ∧ turn = .leave) ∨ (word line = "" ∧ turn = .reply .silent shell) ∨
    ∃ result after, shell.session.run fuel line shell.global = some (result, after) ∧
      turn = shell.replyTo result after := by
  by_cases hleaves : Leaves line
  · rw [turn_of_leaves shell fuel hleaves] at h
    exact .inl ⟨hleaves, (Option.some.inj h).symm⟩
  by_cases hblank : word line = ""
  · rw [turn_of_blank shell fuel hblank] at h
    exact .inr (.inl ⟨hblank, (Option.some.inj h).symm⟩)
  · rw [turn_of_word shell fuel hleaves hblank] at h
    obtain ⟨⟨result, after⟩, hrun, hreply⟩ := Option.map_eq_some_iff.1 h
    exact .inr (.inr ⟨result, after, hrun, hreply.symm⟩)

theorem leaves_of_turn (h : shell.turn fuel line = some .leave) : Leaves line := by
  obtain ⟨hleaves, -⟩ | ⟨-, hturn⟩ | ⟨_, _, -, hturn⟩ := turn_cases h
  · exact hleaves
  · cases hturn
  · cases hturn

/-- A shell has no fault waiting behind a line, and goes on as it was started. -/
theorem Quiet.turn (hq : shell.Quiet) (h : shell.turn fuel line = some (.reply report next)) :
    next.Quiet ∧ next.notes = shell.notes := by
  obtain ⟨-, hturn⟩ | ⟨-, hturn⟩ | ⟨_, _, -, hturn⟩ := turn_cases h
  · cases hturn
  · cases hturn
    exact ⟨hq, rfl⟩
  · cases hturn
    exact ⟨rfl, rfl⟩

theorem Quiet.takeFaults_eq (hq : shell.Quiet) :
    shell.session.takeFaults = ([], shell.session) := by
  obtain ⟨⟨context, ⟨scopes, lists, console, faults⟩, held, nextLabel⟩, global, notes⟩ := shell
  obtain rfl : faults = #[] := hq
  rfl

/-- A rejected line is answered, and the shell is as before. -/
theorem Quiet.turn_of_rejects (hq : shell.Quiet) (fuel : Nat) (h : Rejects line) :
    shell.turn fuel line = some (.reply (rejection line) shell) := by
  by_cases hblank : word line = ""
  · rw [turn_of_blank shell fuel hblank, rejection, if_pos hblank]
  · have hsilent : (if shell.notes then faultNotes shell.session.machine.lists [] else "") = "" :=
      ite_self _
    have hfaults : shell.session.faults = [] := congrArg Prod.fst hq.takeFaults_eq
    rw [turn_of_word shell fuel (not_leaves_of_rejects h) hblank, rejection, if_neg hblank,
      Session.run, if_neg (h.resolve_left hblank), Option.map_some]
    dsimp only [replyTo]
    rw [hq.takeFaults_eq, shell.session.printedSince_self, String.empty_append, hfaults, hsilent]

/-- The notes on a line are about the faults that this line has recorded. -/
theorem Quiet.errors_eq (hq : shell.Quiet) (h : shell.turn fuel line = some (.reply report next)) :
    report.errors = if shell.notes then
      faultNotes next.session.machine.lists (shell.session.recorded fuel line shell.global)
      else "" := by
  obtain ⟨-, hturn⟩ | ⟨hblank, hturn⟩ | ⟨result, after, hrun, hturn⟩ := turn_cases h
  · cases hturn
  · cases hturn
    simp [Session.recorded_of_blank hblank, faultNotes, Report.silent]
  · cases hturn
    have hnone : shell.session.faults = [] := congrArg Prod.fst hq.takeFaults_eq
    rw [Session.recorded, hrun, hnone]
    rfl

end Shell

/-! ## Dialogues -/

def Report.result (report : Report) : Nat × String :=
  (report.status, report.output)

theorem Report.result_andThen (first : Report) (answer : Option Report) :
    (answer.map first.andThen).map result =
      (answer.map result).map fun (status, output) => (status, first.output ++ output) := by
  rw [Option.map_map, Option.map_map]
  rfl

namespace Shell

/-- The answers to lines, and the shell behind them. There is none if a line ends the shell. -/
def converse (fuel : Nat) (shell : Shell) : List String → Option (List Report × Shell)
  | [] => some ([], shell)
  | line :: lines =>
    match shell.turn fuel line with
    | some (.reply report next) =>
      (next.converse fuel lines).map fun (reports, last) => (report :: reports, last)
    | _ => none

/-- The answers to all lines up to the one that ends the shell, each by itself, and what is written
at the end. -/
def transcript (fuel : Nat) (shell : Shell) : List (Option String) → Option (List Report × Report)
  | [] => some ([], .silent)
  | none :: _ => some ([], .failure "line editor failed: stream did not contain valid UTF-8")
  | some line :: lines =>
    match shell.turn fuel line with
    | none => none
    | some .leave => some ([], .silent)
    | some (.reply report next) =>
      (next.transcript fuel lines).map fun (reports, last) => (report :: reports, last)

/-- What a shell writes is what it writes for each line, one after the other. -/
theorem answer_eq_transcript (fuel : Nat) (shell : Shell) (lines : List (Option String)) :
    shell.answer fuel lines = (shell.transcript fuel lines).map fun (reports, last) =>
      reports.foldr Report.andThen last := by
  induction lines generalizing shell with
  | nil => rfl
  | cons line lines ih =>
    cases line with
    | none => rfl
    | some line =>
      rw [answer, transcript]
      cases shell.turn fuel line with
      | none => rfl
      | some turn =>
        cases turn with
        | leave => rfl
        | reply report next =>
          dsimp only
          rw [ih next, Option.map_map, Option.map_map]
          rfl

variable {shell next : Shell} {fuel : Nat} {line : String} {report : Report}

theorem converse_spec {before : List String} {reports : List Report} (hq : shell.Quiet)
    (h : shell.converse fuel before = some (reports, next)) :
    reports.length = before.length ∧ next.Quiet ∧ next.notes = shell.notes := by
  induction before generalizing shell reports with
  | nil =>
    cases h
    exact ⟨rfl, hq, rfl⟩
  | cons line before ih =>
    rw [converse] at h
    split at h
    next report mid hturn =>
      obtain ⟨⟨reports, last⟩, hrest, hreports⟩ := Option.map_eq_some_iff.1 h
      cases hreports
      obtain ⟨hmid, hsame⟩ := hq.turn hturn
      obtain ⟨hlength, hnext, hnotes⟩ := ih hmid hrest
      exact ⟨congrArg (· + 1) hlength, hnext, hnotes.trans hsame⟩
    next => cases h

/-- A dialogue goes on behind lines that do not end it. -/
theorem transcript_append {before : List String} (hbefore : ∀ line ∈ before, ¬Leaves line)
    (after : List (Option String)) : shell.transcript fuel (before.map some ++ after) =
      (shell.converse fuel before).bind fun (reports, next) =>
        (next.transcript fuel after).map fun (later, last) => (reports ++ later, last) := by
  induction before generalizing shell with
  | nil => simp [converse]
  | cons line before ih =>
    obtain ⟨hline, hbefore⟩ := List.forall_mem_cons.1 hbefore
    rw [List.map_cons, List.cons_append, transcript, converse]
    cases hturn : shell.turn fuel line with
    | none => rfl
    | some turn =>
      cases turn with
      | leave => exact absurd (leaves_of_turn hturn) hline
      | reply report next =>
        dsimp only
        rw [ih hbefore]
        cases next.converse fuel before with
        | none => rfl
        | some r =>
          simp only [Option.map_some, Option.bind_some, Option.map_map]
          rfl

/-- A rejected line is answered where it stands, and all others are answered as without it. -/
theorem Quiet.transcript_insert (hq : shell.Quiet) {before : List String}
    (hbefore : ∀ line ∈ before, ¬Leaves line) (hline : Rejects line)
    (after : List (Option String)) :
    (∀ r, shell.transcript fuel (before.map some ++ after) = some r →
      before.length ≤ r.1.length) ∧
    shell.transcript fuel (before.map some ++ some line :: after) =
      (shell.transcript fuel (before.map some ++ after)).map fun (reports, last) =>
        (reports.take before.length ++ rejection line :: reports.drop before.length, last) := by
  rw [transcript_append hbefore, transcript_append hbefore]
  cases hconverse : shell.converse fuel before with
  | none => exact ⟨nofun, rfl⟩
  | some r =>
    obtain ⟨reports, next⟩ := r
    obtain ⟨hlength, hnext, -⟩ := converse_spec hq hconverse
    simp only [Option.bind_some, transcript, hnext.turn_of_rejects fuel hline]
    refine ⟨fun r hr => ?_, ?_⟩
    · obtain ⟨later, -, rfl⟩ := Option.map_eq_some_iff.1 hr
      simp [hlength]
    · cases next.transcript fuel after with
      | none => rfl
      | some later => simp [← hlength]

/-! ## With notes and without -/

def hushed (shell : Shell) : Shell :=
  { shell with notes := false }

theorem turn_hushed (shell : Shell) (fuel : Nat) (line : String) :
    shell.hushed.turn fuel line = (shell.turn fuel line).map fun
      | .leave => .leave
      | .reply report next => .reply { report with errors := "" } next.hushed := by
  by_cases hleaves : Leaves line
  · rw [turn_of_leaves _ fuel hleaves, turn_of_leaves _ fuel hleaves]
    rfl
  by_cases hblank : word line = ""
  · rw [turn_of_blank _ fuel hblank, turn_of_blank _ fuel hblank]
    rfl
  · rw [turn_of_word _ fuel hleaves hblank, turn_of_word _ fuel hleaves hblank, Option.map_map]
    rfl

theorem answer_hushed (shell : Shell) (fuel : Nat) (lines : List (Option String)) :
    (shell.hushed.answer fuel lines).map Report.result =
      (shell.answer fuel lines).map Report.result := by
  induction lines generalizing shell with
  | nil => rfl
  | cons line lines ih =>
    cases line with
    | none => rfl
    | some line =>
      rw [answer, answer, turn_hushed]
      cases shell.turn fuel line with
      | none => rfl
      | some turn =>
        cases turn with
        | leave => rfl
        | reply report next =>
          simp only [Option.map_some]
          rw [Report.result_andThen, Report.result_andThen, ih]

end Shell

theorem Cli.runSource_result (inv : Invocation) (notes : Bool) (fuel : Nat) (source : String) :
    (runSource { inv with diagnostics := notes } fuel source).map Report.result =
      (runSource inv fuel source).map Report.result := by
  unfold runSource
  simp only [Option.map_map]
  refine Option.map_congr fun r _ => ?_
  obtain ⟨_ | v, after⟩ := r
  · rfl
  · rfl

/-- What a command writes to its output and the status that it ends with do not depend on whether
notes are asked for. -/
theorem Cli.run_result {reader : Reader} {args args' : List String} {inv : Invocation}
    (h : reader args = .ok { inv with diagnostics := false })
    (h' : reader args' = .ok { inv with diagnostics := true }) (fuel : Nat)
    (files : String → Except FileError String) (lines : List (Option String)) :
    (run reader fuel args files lines).map Report.result =
      (run reader fuel args' files lines).map Report.result := by
  unfold run
  rw [h, h']
  dsimp only
  cases inv.file with
  | some path =>
    dsimp only
    unfold runFile
    cases files path with
    | error e => rfl
    | ok source =>
      exact (runSource_result inv false fuel source).trans
        (runSource_result inv true fuel source).symm
  | none =>
    dsimp only
    rw [Report.result_andThen, Report.result_andThen]
    exact congrArg _ (Shell.answer_hushed (.start inv.options true) fuel lines)

/-- A blank line, or one with parse errors, may be put anywhere in front of the line that ends a
shell: it gets its own answer, and all other answers are the same. The notes on a line are about the
faults that the line has recorded. Asking for notes changes neither the output nor the status. -/
theorem rejected_lines_inert (options : Options) (notes : Bool) (fuel : Nat) :
    let shell := Shell.start options notes
    (∀ lines, shell.answer fuel lines = (shell.transcript fuel lines).map fun (reports, last) =>
      reports.foldr Report.andThen last) ∧
    (∀ (before : List String) line (after : List (Option String)),
      (∀ l ∈ before, ¬Shell.Leaves l) → Shell.Rejects line →
      (∀ r, shell.transcript fuel (before.map some ++ after) = some r →
        before.length ≤ r.1.length) ∧
      shell.transcript fuel (before.map some ++ some line :: after) =
        (shell.transcript fuel (before.map some ++ after)).map fun (reports, last) =>
          (reports.take before.length ++ Shell.rejection line :: reports.drop before.length,
            last)) ∧
    (∀ before reports now, shell.converse fuel before = some (reports, now) →
      ∀ line report next, now.turn fuel line = some (.reply report next) →
        report.errors = if notes then
          faultNotes next.session.machine.lists (now.session.recorded fuel line now.global)
          else "") ∧
    ∀ (reader : Cli.Reader) args args' (inv : Cli.Invocation),
      reader args = .ok { inv with diagnostics := false } →
      reader args' = .ok { inv with diagnostics := true } →
      ∀ files lines, (Cli.run reader fuel args files lines).map Report.result =
        (Cli.run reader fuel args' files lines).map Report.result := by
  intro shell
  have hq : shell.Quiet := Shell.quiet_start options notes
  refine ⟨shell.answer_eq_transcript fuel, fun _ _ after hbefore hline =>
    hq.transcript_insert hbefore hline after, fun _ _ _ hnow _ _ _ hturn => ?_,
    fun _ _ _ _ h h' => Cli.run_result h h' fuel⟩
  obtain ⟨-, hnow, hnotes⟩ := Shell.converse_spec hq hnow
  rw [hnow.errors_eq hturn, hnotes]
  rfl

/-- A call that notes a fault, behind a line that is no program and in front of `quit`. -/
theorem rejected_lines_inert_at_call :
    let shell := Shell.start {} true
    let before := ["var g = func(x) \x7b y \x7d\n"]
    let after := [some " g(1)\n", some "quit\n", some "z\n"]
    let defined : Report := ⟨0, "func(x) \x7by\x7d\n", ""⟩
    let called : Report := ⟨0, "nil\n", "note: identifier 'y' not found\n"⟩
    let reader : Cli.Reader := fun args => .ok {
      strictArity := args.contains "--strict-arity"
      diagnostics := args.contains "--diagnostics" }
    Shell.Rejects "g(;\n" ∧
    shell.transcript 30 (before.map some ++ after) = some ([defined, called], .silent) ∧
    shell.transcript 30 (before.map some ++ some "g(;\n" :: after) = some ([defined,
      ⟨0, "Parser errors:\n\tno prefix parse function for ; (at 2:3)\n", ""⟩, called], .silent) ∧
    ∀ files, (Cli.run reader 30 ["--strict-arity"] files after).map Report.result =
      (Cli.run reader 30 ["--diagnostics", "--strict-arity"] files after).map Report.result := by
  intro shell before after defined called reader
  obtain ⟨-, hinert, -, hsame⟩ := rejected_lines_inert {} true 30
  have hrejects : Shell.Rejects "g(;\n" := .inr (by decide +kernel)
  have hleaves : ∀ line ∈ before, ¬Shell.Leaves line := by
    simp only [before, Shell.Leaves]
    decide +kernel
  have hwithout : shell.transcript 30 (before.map some ++ after) =
      some ([defined, called], .silent) := by
    decide +kernel
  have hrejection : Shell.rejection "g(;\n" =
      ⟨0, "Parser errors:\n\tno prefix parse function for ; (at 2:3)\n", ""⟩ := by
    decide +kernel
  refine ⟨hrejects, hwithout, ?_, fun files => ?_⟩
  · rw [(hinert before "g(;\n" after hleaves hrejects).2, hwithout, Option.map_some, hrejection]
    rfl
  · exact hsame reader _ _ { strictArity := true } rfl rfl files after

end Scriptlet
