import ExprLang.Proofs.Evaluation.Arguments
import ExprLang.Proofs.Parsing.Safety
import ExprLang.Proofs.Running.Chunks
import ExprLang.Proofs.Running.Keeping
import ExprLang.Proofs.Scanning.Lines

/-!
# How a run ends

A run of a source without syntax errors ends with a value of the language or with a runtime error of
a known kind. The error stands in the line of a token of this source or of an earlier one, whose
functions may be called here: a renumbering that keeps the lines of these tokens changes no
statement and no global, and so no outcome.
-/

namespace ExprLang

open ExprLang.Parser ExprLang.Eval

/-! ## Lines of tokens -/

/-- The lines of the tokens of some sources. -/
def tokenLines (sources : List Bytes) : List Int :=
  sources.flatMap fun s => (scan s).tokens.map Token.line

theorem mem_tokenLines {sources : List Bytes} {s : Bytes} (hs : s ∈ sources) {t : Token}
    (ht : t ∈ (scan s).tokens) : t.line ∈ tokenLines sources :=
  List.mem_flatMap.mpr ⟨s, hs, List.mem_map_of_mem ht⟩

theorem tokenLines_range {s : Bytes} {line : Int} (h : line ∈ tokenLines [s]) :
    1 ≤ line ∧ line ≤ 1 + Text.newlines s := by
  simp only [tokenLines, List.flatMap_singleton, List.mem_map] at h
  obtain ⟨t, ht, rfl⟩ := h
  exact line_of_mem_scan ht

/-- A renumbering that keeps the given lines, and makes any other line one of them. -/
def snap (lines : List Int) (line : Int) : Int := if line ∈ lines then line else lines.headD 0

theorem snap_of_mem {lines : List Int} {line : Int} (h : line ∈ lines) : snap lines line = line :=
  if_pos h

theorem mem_of_snap {lines : List Int} (hne : lines ≠ []) {line : Int}
    (h : snap lines line = line) : line ∈ lines := by
  by_contra hn
  rw [snap, if_neg hn] at h
  cases lines with
  | nil => exact hne rfl
  | cons l lines =>
    subst h
    exact hn List.mem_cons_self

theorem statements_map {f : Int → Int} {s : Bytes}
    (hf : ∀ t ∈ (scan s).tokens, f t.line = t.line) :
    (statements s).map (Expr.mapLine f) = statements s := by
  have htoken : ∀ t ∈ (scan s).tokens, t.mapLine f = t := fun t ht => by rw [Token.mapLine, hf t ht]
  rw [scan_tokens, List.forall_mem_append] at htoken
  have hbody : (bodyTokens s).map (Token.mapLine f) = bodyTokens s := by
    rw [List.map_congr_left htoken.1, List.map_id']
  have hprogram := readProgram_map f (.eof (1 + Text.newlines s)) (bodyTokens s)
  rw [hbody, htoken.2 _ (List.mem_singleton_self _)] at hprogram
  rw [statements, parse_scan]
  exact (congrArg Program.statements hprogram).symm

/-! ## Outcomes -/

/-- The kinds of errors of a run. -/
def runtimeKinds : List Bytes := [
  bytes "undefined variable", bytes "not callable", bytes "wrong number of arguments",
  bytes "type error", bytes "reduce of empty sequence", bytes "division by zero",
  bytes "integer overflow"]

theorem RuntimeCause.kind_mem (cause : RuntimeCause) : cause.kind ∈ runtimeKinds := by
  cases cause <;> simp [kind, runtimeKinds]

/-- A value of the language, or a runtime error of a known kind in a line with a property. -/
inductive Outcome.Documented (P : Int → Prop) : Outcome → Prop
  | value {v : Value} (proper : v.isProper = true) : Documented P (.value v)
  | runtimeError {e : RuntimeError} (kind : e.cause.kind ∈ runtimeKinds) (line : P e.line) :
    Documented P (.runtimeError e)

theorem Outcome.Documented.mono {P Q : Int → Prop} {o : Outcome} (h : o.Documented P)
    (hpq : ∀ line, P line → Q line) : o.Documented Q := by
  cases h with
  | value proper => exact .value proper
  | runtimeError kind line => exact .runtimeError kind (hpq _ line)

/-- An outcome that a renumbering leaves as it is has its line among those it keeps. -/
theorem Outcome.Documented.of_snap {P : Int → Prop} {o : Outcome} (h : o.Documented P)
    {lines : List Int} (hne : lines ≠ []) (hsnap : o.mapLine (snap lines) = o) :
    o.Documented (· ∈ lines) := by
  cases h with
  | value proper => exact .value proper
  | @runtimeError e kind line =>
    have he : e.mapLine (snap lines) = e := Outcome.runtimeError.inj hsnap
    exact .runtimeError kind (mem_of_snap hne (congrArg RuntimeError.line he))

theorem Outcome.Ends.documented {o : Outcome} (h : o.Ends fun v => v.isProper = true)
    (hfuel : o ≠ .outOfFuel) : o.Documented fun _ => True := by
  cases h with
  | value proper => exact .value proper
  | runtimeError e => exact .runtimeError e.cause.kind_mem trivial
  | outOfFuel => exact absurd rfl hfuel

/-! ## Runs -/

namespace Interpreter

/-- All values in the globals are proper, and all lines in them are among the given ones. -/
structure Sound (lines : List Int) (i : Interpreter) : Prop where
  proper : i.machine.scope.Proper
  snapped : i.machine.scope.mapLine (snap lines) = i.machine.scope

theorem sound_new (lines : List Int) (verbose : Bool) : (new verbose).Sound lines where
  proper := List.forall_mem_singleton.mpr (Frame.proper_globals _)
  snapped := rfl

/-- A run from such globals ends in a documented way and leaves such globals. -/
theorem Sound.run {lines : List Int} {i : Interpreter} (h : i.Sound lines) (fuel : Nat)
    {s : Bytes} (hs : ∀ t ∈ (scan s).tokens, t.line ∈ lines) :
    (i.run fuel s).after.Sound lines ∧ (check s = [] → (i.run fuel s).outcome ≠ .outOfFuel →
      (i.run fuel s).outcome.Documented (· ∈ lines)) := by
  by_cases hcheck : check s = []
  · obtain ⟨houtcome, -, -, hafter⟩ := run_checked fuel i hcheck
    have hnull : Value.null.isProper = true := rfl
    obtain ⟨ds, hds⟩ := exists_declarations i.cleared.machine.fresh
    obtain ⟨ks, -, hends, hall⟩ := runStatements_keeps Value.lasting_isProper fuel (statements s)
      (i := i.cleared) ⟨hds, h.proper⟩ hnull 0
    have hstart : i.cleared.relabel (snap lines) [] = i.cleared := by
      simp only [relabel, Machine.relabel, cleared, h.snapped, List.append_nil]
    -- The renumbering keeps the start and the statements, and so the outcome and the end.
    have hsame := @runStatements_relabel (snap lines) [] fuel (statements s) i.cleared .null .null
      0 0 fun _ => rfl
    rw [hstart, statements_map fun t ht => snap_of_mem (hs t ht)] at hsame
    have hne : lines ≠ [] := by
      intro hnil
      have hend := hs (.eof (1 + Text.newlines s)) (by simp [scan_tokens])
      rw [hnil] at hend
      cases hend
    rw [houtcome, hafter]
    refine ⟨⟨hall.scope, (congrArg (·.machine.scope) hsame.2).symm⟩, fun _ hfuel => ?_⟩
    exact (hends.documented hfuel).of_snap hne hsame.1.symm
  · rw [(run_faulty fuel i hcheck).2.2]
    exact ⟨h, fun hnil => absurd hnil hcheck⟩

theorem Sound.runAll {lines : List Int} {i : Interpreter} (h : i.Sound lines)
    {runs : List (Nat × Bytes)} (hruns : ∀ r ∈ runs, ∀ t ∈ (scan r.2).tokens, t.line ∈ lines) :
    (i.runAll runs).Sound lines := by
  induction runs generalizing i with
  | nil => exact h
  | cons r runs ih =>
    obtain ⟨hr, hruns⟩ := List.forall_mem_cons.mp hruns
    exact ih (h.run r.1 hr).1 hruns

end Interpreter

/-- The parser ends on the tokens of a source, without a crash. -/
theorem cursor_run_scan (s : Bytes) :
    ∃ history state, Cursor.run (scan s).tokens = .done history state := by
  obtain ⟨history, h⟩ := Cursor.exists_records (.ofTokens (scan s).tokens) _ (List.suffix_refl _)
  refine ⟨history, ?_⟩
  have hmalformed : (Parser.readProgram (Cursor.Input.ofTokens (scan s).tokens).stop
      (Cursor.Input.ofTokens (scan s).tokens).body).malformed = none := parse_scan_malformed s
  rw [Cursor.run_eq rfl h, Cursor.Input.finish, hmalformed]
  exact ⟨_, rfl⟩

/-- A run after any others in the same interpreter. With syntax errors it gives just these and
changes nothing. Without any, it gives a proper value or an error of one of the seven kinds in the
line of a token; the parser does not crash, and neither does a call. The globals stay proper. -/
theorem run_outcomes (verbose : Bool) (before : List (Nat × Bytes)) (fuel : Nat)
    (source : Bytes) :
    let i := (Interpreter.new verbose).runAll before
    let run := i.run fuel source
    (check source ≠ [] →
      run.outcome = .syntaxErrors (check source) ∧ run.printed = [] ∧ run.after = i) ∧
    (check source = [] → run.outcome ≠ .outOfFuel →
      run.outcome.Documented (· ∈ tokenLines (before.map Prod.snd ++ [source])) ∧
      (before = [] →
        run.outcome.Documented fun line => 1 ≤ line ∧ line ≤ 1 + Text.newlines source)) ∧
    run.after.machine.scope.Proper ∧
    (∃ history state, Cursor.run (scan source).tokens = .done history state) ∧
    ∀ crash : Eval Value, ByIndex.eval crash fuel = eval fuel := by
  intro i run
  have hbefore : ∀ r ∈ before, ∀ t ∈ (scan r.2).tokens,
      t.line ∈ tokenLines (before.map Prod.snd ++ [source]) := fun r hr t ht =>
    mem_tokenLines (List.mem_append_left _ (List.mem_map_of_mem hr)) ht
  have hsource : ∀ t ∈ (scan source).tokens,
      t.line ∈ tokenLines (before.map Prod.snd ++ [source]) := fun t ht =>
    mem_tokenLines (List.mem_append_right _ (List.mem_singleton_self source)) ht
  obtain ⟨hafter, houtcome⟩ :=
    ((Interpreter.sound_new _ verbose).runAll hbefore).run fuel hsource
  refine ⟨Interpreter.run_faulty fuel i, fun hcheck hfuel => ⟨houtcome hcheck hfuel, ?_⟩,
    hafter.proper, cursor_run_scan source, fun crash => ByIndex.eval_eq crash fuel⟩
  rintro rfl
  exact (houtcome hcheck hfuel).mono fun line => tokenLines_range

/-- A source that makes functions on two lines. -/
def summing : Bytes := bytes "add := |a b| a + b\nsum := |xs| reduce(add, xs)"

/-- A call of one of them that fails, on the only line. -/
def emptySum : Bytes := bytes "sum(1 to 1)"

/-- The failing call has the line of the earlier source; a closing parenthesis is not run at all. -/
theorem run_outcomes_emptySum :
    let i := (Interpreter.new true).runAll [(20, summing)]
    let run := i.run 20 emptySum
    check emptySum = [] ∧
      run.outcome.errorText? =
        some (bytes "runtime error on line 2: reduce expects at least 1 element") ∧
      run.outcome.Documented (· ∈ tokenLines [summing, emptySum]) ∧
      run.after.machine.scope.Proper ∧
      (∀ crash : Eval Value, ByIndex.eval crash 20 = eval 20) ∧
      check (bytes ")") ≠ [] ∧ (i.run 20 (bytes ")")).outcome = .syntaxErrors (check (bytes ")")) ∧
      (i.run 20 (bytes ")")).printed = [] ∧ (i.run 20 (bytes ")")).after = i := by
  have hcheck : check emptySum = [] := by decide +kernel
  have hfaulty : check (bytes ")") ≠ [] := by decide +kernel
  have herror : (((Interpreter.new true).runAll [(20, summing)]).run 20
      emptySum).outcome.errorText? =
      some (bytes "runtime error on line 2: reduce expects at least 1 element") := by
    decide +kernel
  have hfuel : (((Interpreter.new true).runAll [(20, summing)]).run 20
      emptySum).outcome ≠ .outOfFuel := fun h =>
    absurd (herror.symm.trans (congrArg Outcome.errorText? h)) (by decide +kernel)
  obtain ⟨-, hended, hproper, -, hcrash⟩ := run_outcomes true [(20, summing)] 20 emptySum
  obtain ⟨hrefused, -⟩ := run_outcomes true [(20, summing)] 20 (bytes ")")
  exact ⟨hcheck, herror, (hended hcheck hfuel).1, hproper, hcrash, hfaulty, hrefused hfaulty⟩

end ExprLang
