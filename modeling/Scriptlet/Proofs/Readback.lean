import Scriptlet.Proofs.Comparison
import Scriptlet.Proofs.RoundTrip
import Scriptlet.Proofs.Splitting
import Scriptlet.Value.Text

/-!
# Values that are read back from their code

The code of plain data is a program for it: it is read without errors, and what it evaluates to is
an equal value, in lists of its own. A negative number is read as the negation of a positive one, so
the smallest integer cannot be read back, and strings are written as they are, so a quote or a
backslash in one is not read as it was.

`Value.code` goes down into as many lists as there are. That is far enough, because lists in which
others are nested so deep are all different (`exists_nested`).
-/

namespace Scriptlet

open Grammar Text

/-! ## Plain data -/

/-- Data that its code says: integers but for the smallest, truth values, nil, strings without
quotes and backslashes, and lists of such data, at most `depth` of them in each other. -/
inductive Value.Plain (lists : Lists) : Nat → Value → Prop
  | int {depth : Nat} {n : Int64} (h : n ≠ Int64.minValue) : Plain lists depth (.int n)
  | bool {depth : Nat} (b : Bool) : Plain lists depth (.bool b)
  | nil {depth : Nat} : Plain lists depth .nil
  | str {depth : Nat} {s : String} (h : ∀ c ∈ s.toList, c ≠ '"' ∧ c ≠ '\\') :
    Plain lists depth (.str s)
  | list {depth : Nat} {a : ListId} (ha : a < lists.size)
    (h : ∀ v ∈ lists.elements a, Plain lists depth v) : Plain lists (depth + 1) (.list a)

namespace Value.Plain

variable {lists : Lists} {depth depth' : Nat} {v : Value}

theorem mono (h : Plain lists depth v) (hdepth : depth ≤ depth') : Plain lists depth' v := by
  induction h generalizing depth' with
  | int h => exact .int h
  | bool b => exact .bool b
  | nil => exact .nil
  | str h => exact .str h
  | list ha _ ih =>
    obtain ⟨depth', rfl⟩ := Nat.exists_eq_add_of_lt (Nat.lt_of_lt_of_le (Nat.succ_pos _) hdepth)
    rw [Nat.zero_add] at hdepth ⊢
    exact .list ha fun v hv => ih v hv (Nat.le_of_succ_le_succ hdepth)

/-- Only a list takes data one level deeper. -/
theorem exists_list (h : Plain lists (depth + 1) v) (hdeep : ¬Plain lists depth v) :
    ∃ a, v = .list a ∧ a < lists.size ∧ ∀ w ∈ lists.elements a, Plain lists depth w := by
  cases h with
  | int h => exact absurd (.int h) hdeep
  | bool b => exact absurd (.bool b) hdeep
  | nil => exact absurd .nil hdeep
  | str h => exact absurd (.str h) hdeep
  | list ha helements => exact ⟨_, rfl, ha, helements⟩

/-- Data nested in `depth + 1` lists, and not in fewer, is nested in so many different ones. -/
theorem exists_nested (h : Plain lists (depth + 1) v) (hdeep : ¬Plain lists depth v) :
    ∃ as : List ListId, as.length = depth + 1 ∧ as.Nodup ∧
      ∀ a ∈ as, a < lists.size ∧ Plain lists (depth + 1) (.list a) := by
  induction depth generalizing v with
  | zero =>
    obtain ⟨a, rfl, ha, -⟩ := h.exists_list hdeep
    exact ⟨[a], rfl, by simp, by simpa using ⟨ha, h⟩⟩
  | succ depth ih =>
    obtain ⟨a, rfl, ha, helements⟩ := h.exists_list hdeep
    obtain ⟨w, hw, hwdeep⟩ : ∃ w ∈ lists.elements a, ¬Plain lists depth w :=
      Classical.byContradiction fun hall => hdeep (.list ha fun w hw =>
        Classical.byContradiction fun hwdeep => hall ⟨w, hw, hwdeep⟩)
    obtain ⟨as, hlength, hnodup, has⟩ := ih (helements w hw) hwdeep
    have hnew : a ∉ as := fun hmem => hdeep (has a hmem).2
    refine ⟨a :: as, congrArg (· + 1) hlength, List.nodup_cons.2 ⟨hnew, hnodup⟩, ?_⟩
    exact List.forall_mem_cons.2
      ⟨⟨ha, h⟩, fun b hb => ⟨(has b hb).1, (has b hb).2.mono (Nat.le_succ _)⟩⟩

/-- Data is not nested in more lists than there are. -/
theorem size (h : Plain lists depth v) : Plain lists lists.size v := by
  induction depth with
  | zero => exact h.mono (Nat.zero_le _)
  | succ depth ih =>
    by_cases hdeep : Plain lists depth v
    · exact ih hdeep
    · obtain ⟨as, hlength, hnodup, has⟩ := h.exists_nested hdeep
      have hsub : as ⊆ List.range lists.size := fun a ha => List.mem_range.2 (has a ha).1
      have hle := hnodup.length_le_of_subset hsub
      rw [hlength, List.length_range] at hle
      exact h.mono hle

end Value.Plain

/-! ## Reading -/

theorem decimal_of_neg {n : Int64} (hmin : n ≠ Int64.minValue) (hn : n.toInt < 0) :
    0 ≤ (-n).toInt ∧ decimal n = Mark.minus.text ++ decimal (-n) := by
  have hne : n.toInt ≠ Int64.minValue.toInt := fun h => hmin (Int64.toInt_inj.1 h)
  have hlow := n.le_toInt
  rw [Int64.toInt_minValue] at hne
  have hneg : (-n).toInt = -n.toInt := by
    rw [Int64.toInt_neg]
    exact Int.bmod_eq_of_le (by omega) (by omega)
  refine ⟨by omega, ?_⟩
  obtain ⟨k, hk⟩ := Int.eq_negSucc_of_lt_zero hn
  rw [decimal, decimal, hneg, hk]
  rfl

/-- A string literal without escapes stands for what is in its quotes. -/
theorem scanString_unescaped (taken value cs rest : List Char)
    (h : ∀ c ∈ cs, c ≠ '"' ∧ c ≠ '\\') :
    (scanString '"' taken value (cs ++ '"' :: rest)).token =
        .string (String.ofList (value.reverse ++ cs)) ∧
      (scanString '"' taken value (cs ++ '"' :: rest)).rest = rest := by
  induction cs generalizing taken value with
  | nil =>
    rw [List.nil_append, scanString.eq_def]
    simp
  | cons c cs ih =>
    obtain ⟨hc, hcs⟩ := List.forall_mem_cons.1 h
    rw [List.cons_append, scanString.eq_def]
    simpa [hc] using ih (c :: taken) (c :: value) hcs

theorem lexes_unescaped {s : String} (h : ∀ c ∈ s.toList, c ≠ '"' ∧ c ≠ '\\') :
    Lexes (fun _ => True) ("\"" ++ s ++ "\"") [.string s] := by
  intro rest _
  have htext : ("\"" ++ s ++ "\"").toList ++ rest = '"' :: (s.toList ++ '"' :: rest) := by
    simp
  obtain ⟨htoken, hrest⟩ := scanString_unescaped ['"'] [] s.toList rest h
  rw [htext, lexemes_of_not_blank _ (by decide)]
  simp only [List.reverse_nil, List.nil_append, String.ofList_toList] at htoken
  simp [scan, Mark.read?, htoken, hrest]

def ReadAs (text : String) (e : Expr Unit) : Prop :=
  ∃ ts, Lexes Apart text ts ∧ Unary ts e

theorem ReadAs.of_primary {text : String} {ts : List Token} {e : Expr Unit}
    (htext : Lexes Apart text ts) (h : Primary ts e) : ReadAs text e :=
  ⟨ts, htext, .suffixed (.primary h)⟩

theorem readAs_int {n : Int64} (hmin : n ≠ Int64.minValue) :
    ReadAs (decimal n) (if n.toInt < 0 then .prefixOp .minus (.int (-n)) else .int n) := by
  split
  next hn =>
    obtain ⟨hpos, htext⟩ := decimal_of_neg hmin hn
    rw [htext]
    exact ⟨_, (lexes_mark .minus (by simp)).closed_append (lexes_decimal hpos),
      @Unary.prefixOp .minus _ _ (.suffixed (.primary (primary_decimal hpos)))⟩
  next hn =>
    have hpos := Int.not_lt.1 hn
    exact .of_primary (lexes_decimal hpos) (primary_decimal hpos)

theorem readAs_list {vs : List Value} {text : Value → String} {tree : Value → Expr Unit}
    (h : ∀ v ∈ vs, ReadAs (text v) (tree v)) :
    ReadAs ("[" ++ commaSeparated (vs.map text) ++ "]") (.list (vs.map tree)) := by
  have hitems : ∃ ts, Arguments ts (vs.map tree) ∧
      Lexes Apart (commaSeparated (vs.map text)) ts := by
    induction vs with
    | nil => exact ⟨[], .nil, lexes_empty _⟩
    | cons v vs ih =>
      obtain ⟨⟨ts, htext, he⟩, hvs⟩ := List.forall_mem_cons.1 h
      have he : Binary 0 ts (tree v) := (Binary.unary he).mono (Nat.zero_le _) (Nat.le_refl _)
      obtain ⟨us, hes, htexts⟩ := ih hvs
      cases vs with
      | nil => exact ⟨ts, lexes_singleton he htext⟩
      | cons w vs => exact ⟨_, lexes_cons he htext hes htexts⟩
  obtain ⟨ts, hes, htexts⟩ := hitems
  refine .of_primary ?_ (.list hes)
  exact (lexes_enclosed .leftBracket .rightBracket htexts (by simp) (by simp)).mono
    fun _ _ => trivial

/-- The expression that data is read as, given those of its elements if it is a list. -/
def Value.treeWith {ι : Type} (elementTrees : ListId → List (Expr ι)) : Value → Expr ι
  | int n => if n.toInt < 0 then .prefixOp .minus (.int (-n)) else .int n
  | bool b => .bool b
  | str s => .str s
  | nil => .nil
  | list a => .list (elementTrees a)
  | func _ | builtin _ | returned _ => .nil

def Lists.elementTrees {ι : Type} (lists : Lists) : Nat → ListId → List (Expr ι)
  | 0, _ => []
  | depth + 1, a => (lists.elements a).map (Value.treeWith (lists.elementTrees depth))

namespace Value.Plain

variable {lists : Lists} {depth : Nat} {v : Value}

/-- The code of plain data is read as its tree. -/
theorem readAs (h : Plain lists depth v) :
    ReadAs (v.codeWith (lists.elementTexts depth)) (v.treeWith (lists.elementTrees depth)) := by
  have keyword (k : Keyword) {e : Expr Unit} (he : Primary [.keyword k] e) : ReadAs k.text e :=
    .of_primary (lexes_keyword k) he
  induction h with
  | int h => exact readAs_int h
  | bool b =>
    cases b with
    | true => exact keyword .true_ .true_
    | false => exact keyword .false_ .false_
  | nil => exact keyword .nil .nil
  | str h => exact .of_primary ((lexes_unescaped h).mono fun _ _ => trivial) .str
  | list _ _ ih => exact readAs_list ih

/-- There are no function literals to be numbered. -/
theorem label_tree (h : Plain lists depth v) (next : Nat) :
    (v.treeWith (lists.elementTrees depth) : Expr Unit).label next =
      (v.treeWith (lists.elementTrees depth), next) := by
  have elements {vs : List Value} {tree : Value → Expr Unit} {tree' : Value → Expr Nat}
      (h : ∀ v ∈ vs, (tree v).label next = (tree' v, next)) :
      labelExprs next (vs.map tree) = (vs.map tree', next) := by
    induction vs with
    | nil => rfl
    | cons v vs ih =>
      obtain ⟨hv, hvs⟩ := List.forall_mem_cons.1 h
      rw [List.map_cons, labelExprs, hv, List.map_cons]
      dsimp only
      rw [ih hvs]
  induction h with
  | @int _ n _ =>
    rw [treeWith, treeWith]
    split <;> rfl
  | bool b => rfl
  | nil => rfl
  | str h => rfl
  | list _ _ ih =>
    rw [treeWith, Expr.label, Lists.elementTrees, elements ih]
    rfl

end Value.Plain

/-- A text that is read as one operand is a program of one expression. -/
theorem ReadAs.parse_eq {text : String} {e : Expr Unit} (h : ReadAs text e) :
    parse text = ⟨[.expr e], []⟩ := by
  obtain ⟨ts, hlexes, he⟩ := h
  have he : Binary 0 ts e := (Binary.unary he).mono (Nat.zero_le _) (Nat.le_refl _)
  have hts : lexemes text.toList = ts := by simpa using hlexes [] apart_nil
  exact parse_of_lexemes (hts ▸ statements_singleton he)

/-! ## Evaluation -/

structure Lists.Extends (lists lists' : Lists) : Prop where
  size : lists.size ≤ lists'.size
  elements : ∀ a < lists.size, lists'.elements a = lists.elements a

namespace Lists.Extends

variable {lists lists' lists'' : Lists}

theorem refl (lists : Lists) : lists.Extends lists :=
  ⟨Nat.le_refl _, fun _ _ => rfl⟩

theorem trans (h : lists.Extends lists') (h' : lists'.Extends lists'') : lists.Extends lists'' where
  size := Nat.le_trans h.size h'.size
  elements a ha := (h'.elements a (Nat.lt_of_lt_of_le ha h.size)).trans (h.elements a ha)

theorem alloc (lists : Lists) (vs : List Value) : lists.Extends (lists.alloc vs) :=
  ⟨by simp, fun _ => elements_alloc_of_lt⟩

end Lists.Extends

/-- Two values are equal, down to a depth or further, and stay so when lists are added. -/
def Value.Matches (lists : Lists) (depth : Nat) (v w : Value) : Prop :=
  ∀ lists', lists.Extends lists' → ∀ k ≥ depth, v.equalWith (lists'.equal k) w = true

def Value.AllMatch (lists : Lists) (depth : Nat) (vs ws : List Value) : Prop :=
  ∀ lists', lists.Extends lists' → ∀ k ≥ depth, vs.isEqv ws (equalWith (lists'.equal k)) = true

namespace Context

variable {ctx : Context} {s : ScopeId} {m : Machine}

/-- With enough fuel an expression comes to a value. Lists may have been added, and that is all that
is different then. -/
structure Makes (ctx : Context) (s : ScopeId) (m : Machine) (e : Expr Nat) (v : Value)
    (lists : Lists) : Prop where
  stays : v.isReturned = false
  grows : m.lists.Extends lists
  ends : ∃ enough, ∀ fuel ≥ enough, evalExpr ctx fuel e s m = some (v, { m with lists })

structure MakesAll (ctx : Context) (s : ScopeId) (m : Machine) (es : List (Expr Nat))
    (vs : List Value) (lists : Lists) : Prop where
  grows : m.lists.Extends lists
  ends : ∃ enough, ∀ fuel ≥ enough, evalExprs ctx fuel es s m = some (.ok vs, { m with lists })

theorem makesAll_nil : ctx.MakesAll s m [] [] m.lists where
  grows := .refl _
  ends := by
    refine ⟨1, fun fuel hfuel => ?_⟩
    obtain ⟨fuel, rfl⟩ := Nat.exists_eq_add_of_le' hfuel
    rw [evalExprs]

theorem Makes.cons {e : Expr Nat} {es : List (Expr Nat)} {v : Value} {vs : List Value}
    {lists lists' : Lists} (h : ctx.Makes s m e v lists)
    (hs : ctx.MakesAll s { m with lists } es vs lists') :
    ctx.MakesAll s m (e :: es) (v :: vs) lists' where
  grows := h.grows.trans hs.grows
  ends := by
    obtain ⟨enough, hfirst⟩ := h.ends
    obtain ⟨enough', hrest⟩ := hs.ends
    refine ⟨max enough enough' + 1, fun fuel hfuel => ?_⟩
    obtain ⟨fuel, rfl⟩ := Nat.exists_eq_add_of_le' (Nat.le_trans (Nat.le_add_left 1 _) hfuel)
    rw [evalExprs, hfirst fuel (by omega)]
    have hstays := h.stays
    cases v with
    | returned v => cases hstays
    | _ =>
      dsimp only
      rw [hrest fuel (by omega)]

theorem MakesAll.list {es : List (Expr Nat)} {vs : List Value} {lists : Lists}
    (h : ctx.MakesAll s m es vs lists) :
    ctx.Makes s m (.list es) (.list lists.size) (lists.alloc vs) where
  stays := rfl
  grows := h.grows.trans (.alloc lists vs)
  ends := by
    obtain ⟨enough, h⟩ := h.ends
    refine ⟨enough + 1, fun fuel hfuel => ?_⟩
    obtain ⟨fuel, rfl⟩ := Nat.exists_eq_add_of_le' (Nat.le_trans (Nat.le_add_left 1 _) hfuel)
    rw [evalExpr, h fuel (by omega)]
    rfl

/-- In every state that has the lists of `before`, an expression makes a value that equals a value
from before. -/
def Copies (ctx : Context) (s : ScopeId) (before : Lists) (depth : Nat) (e : Expr Nat) (v : Value) :
    Prop :=
  ∀ m : Machine, before.Extends m.lists →
    ∃ w lists, ctx.Makes s m e w lists ∧ v.Matches lists depth w

variable {before : Lists} {depth : Nat}

/-- What is no list is its own copy. -/
theorem copies_self {e : Expr Nat} {v : Value} (enough : Nat) (hv : v.isReturned = false)
    (hself : ∀ same, v.equalWith same v = true)
    (h : ∀ extra m, evalExpr ctx (extra + enough) e s m = some (v, m)) :
    ctx.Copies s before depth e v := by
  refine fun m hm => ⟨v, m.lists, ⟨hv, .refl _, enough, fun fuel hfuel => ?_⟩,
    fun _ _ _ _ => hself _⟩
  obtain ⟨extra, rfl⟩ := Nat.exists_eq_add_of_le' hfuel
  exact h extra m

theorem copies_list {tree : Value → Expr Nat} {a : ListId} (ha : a < before.size)
    (h : ∀ v ∈ before.elements a, ctx.Copies s before depth (tree v) v) :
    ctx.Copies s before (depth + 1) (.list ((before.elements a).map tree)) (.list a) := by
  have elements (m : Machine) (hm : before.Extends m.lists) : ∃ ws lists,
      ctx.MakesAll s m ((before.elements a).map tree) ws lists ∧
        Value.AllMatch lists depth (before.elements a) ws := by
    generalize before.elements a = vs at h ⊢
    induction vs generalizing m with
    | nil => exact ⟨[], m.lists, makesAll_nil, fun _ _ _ _ => rfl⟩
    | cons v vs ih =>
      obtain ⟨hv, hvs⟩ := List.forall_mem_cons.1 h
      obtain ⟨w, lists, hmakes, hmatch⟩ := hv m hm
      obtain ⟨ws, lists', hmakesAll, hmatchAll⟩ :=
        ih { m with lists } (hm.trans hmakes.grows) hvs
      refine ⟨w :: ws, lists', hmakes.cons hmakesAll, fun final hfinal k hk => ?_⟩
      rw [List.isEqv_cons_cons, hmatch final (hmakesAll.grows.trans hfinal) k hk,
        hmatchAll final hfinal k hk]
      rfl
  intro m hm
  obtain ⟨ws, lists, hmakes, hmatch⟩ := elements m hm
  refine ⟨.list lists.size, lists.alloc ws, hmakes.list, fun final hfinal k hk => ?_⟩
  obtain ⟨k, rfl⟩ := Nat.exists_eq_add_of_le' (Nat.le_trans (Nat.le_add_left 1 _) hk)
  have hlists : lists.Extends final := (Lists.Extends.alloc _ _).trans hfinal
  have hnew : final.elements lists.size = ws := by
    rw [hfinal.elements _ (by simp), Lists.elements_alloc_self]
  have hold : final.elements a = before.elements a :=
    (hm.trans (hmakes.grows.trans hlists)).elements a ha
  have hlistsEqual : final.equal (k + 1) a lists.size = true := by
    rw [Lists.equal, hnew, hold]
    exact hmatch final hlists k (Nat.le_of_succ_le_succ hk)
  exact hlistsEqual

end Context

/-- The tree of data makes equal data. -/
theorem Value.Plain.copies {before : Lists} {depth : Nat} {v : Value} (h : Plain before depth v)
    (ctx : Context) (s : ScopeId) :
    ctx.Copies s before depth (v.treeWith (before.elementTrees depth)) v := by
  induction h with
  | @int _ n _ =>
    refine Context.copies_self 2 rfl (fun _ => beq_self_eq_true n) fun extra m => ?_
    rw [treeWith]
    split
    · simp [evalExpr, Outcome.andThen, PrefixOp.apply, Machine.settle]
    · rw [evalExpr]
  | bool b =>
    exact Context.copies_self 1 rfl (fun _ => beq_self_eq_true b) fun _ _ => by
      rw [treeWith, evalExpr]
  | nil => exact Context.copies_self 1 rfl (fun _ => rfl) fun _ _ => by rw [treeWith, evalExpr]
  | @str _ s _ =>
    exact Context.copies_self 1 rfl (fun _ => beq_self_eq_true s) fun _ _ => by
      rw [treeWith, evalExpr]
  | list ha _ ih => exact Context.copies_list ha ih

/-- The code of plain data is read without errors and comes to equal data. Nothing is printed or
noted, and scopes and lists from before are as they were. -/
theorem code_reads_back (session : Session) (s : ScopeId) {depth : Nat} {v : Value}
    (h : v.Plain session.machine.lists depth) :
    let code := v.code session.machine.lists
    (parse code).errors = [] ∧
    ∃ w lists,
      session.Ends (parse code).program s w
        { session with machine := { session.machine with lists } } ∧
      v.equal lists w = true ∧ w.equal lists v = true ∧ session.machine.lists.Extends lists := by
  intro code
  have hplain := h.size
  have hparse : parse code = ⟨[.expr _], []⟩ := hplain.readAs.parse_eq
  obtain ⟨w, lists, hmakes, hmatch⟩ :=
    hplain.copies session.context s session.machine (.refl _)
  have hequal : v.equal lists w = true := hmatch lists (.refl _) _ hmakes.grows.size
  refine ⟨by rw [hparse], w, lists, ?_, hequal, ?_, hmakes.grows⟩
  · obtain ⟨enough, hends⟩ := hmakes.ends
    have hlabel := hplain.label_tree session.nextLabel
    rw [hparse]
    refine Session.ends_iff_exists.2 ⟨{ session.machine with lists }, ?_, ?_⟩
    · simp only [Program.label, labelBlock, Stmt.label, hlabel]
      refine Context.ends_iff.2 (.inl (.cons ⟨enough + 1, ?_⟩ hmakes.stays (.nil _ _)))
      rw [evalStmt, hends enough (Nat.le_refl _)]
    · simp only [Session.ran, Program.label, labelBlock, Stmt.label, hlabel]
  · exact Value.equal_symm hequal

/-- A list twice in another, with a negative number, a line break in a string, and the greatest and
almost the smallest integer. -/
theorem code_reads_back_of_shared :
    let start := Session.start { options := {}, builtins := .standard, sink := .unlimited }
    let before : Lists :=
      ⟨#[[.int (-7), .str "é\n'"],
        [.list 0, .bool true, .list 0, .nil, .int Int64.maxValue, .int (-Int64.maxValue)]]⟩
    let session := { start with machine := { start.machine with lists := before } }
    let code := "[[-7, \"é\n'\"], true, [-7, \"é\n'\"], nil, 9223372036854775807, " ++
      "-9223372036854775807]"
    (Value.list 1).code before = code ∧ (Value.list 1).Plain before 2 ∧
      (parse code).errors = [] ∧
      ∃ w lists, session.Ends (parse code).program 0 w
          { session with machine := { session.machine with lists } } ∧
        (Value.list 1).equal lists w = true := by
  intro start before session code
  have hcode : (Value.list 1).code before = code := by decide +kernel
  have hinner : (Value.list 0).Plain before 1 :=
    .list (by decide) (List.forall_mem_cons.2 ⟨.int (by decide),
      List.forall_mem_cons.2 ⟨.str (by simp), nofun⟩⟩)
  have hplain : (Value.list 1).Plain before 2 :=
    .list (by decide) (List.forall_mem_cons.2 ⟨hinner, List.forall_mem_cons.2 ⟨.bool true,
      List.forall_mem_cons.2 ⟨hinner, List.forall_mem_cons.2 ⟨.nil,
      List.forall_mem_cons.2 ⟨.int (by decide), List.forall_mem_cons.2 ⟨.int (by decide),
      nofun⟩⟩⟩⟩⟩⟩)
  obtain ⟨herrors, w, lists, hends, hequal, -⟩ := code_reads_back session 0 hplain
  rw [hcode] at herrors hends
  exact ⟨hcode, hplain, herrors, w, lists, hends, hequal⟩

end Scriptlet
