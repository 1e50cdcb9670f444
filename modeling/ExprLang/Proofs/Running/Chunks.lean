import ExprLang.Proofs.Chunks
import ExprLang.Proofs.Evaluation.Relabelling
import ExprLang.Proofs.Printing.RoundTrip
import ExprLang.Proofs.Running.Steps

/-!
# Running a source whole or in chunks

Two sources without syntax errors mean the same one after the other and joined by a line break. The
lines of the second one are then further down, and no others are: to tell them apart, they are odd
numbers in a run in between, where all lines from before are even.
-/

namespace ExprLang

open ExprLang.Parser ExprLang.Eval

/-! ## No source starts with `else` -/

namespace Parser

/-- An operand fails at every level if it fails at the tightest one. -/
theorem readOperand_error {l : Option Level} {ts : List Token} {fault : Fault}
    (h : readUnary (skipNewlines ts) = .error fault) : readOperand l ts = .error fault := by
  induction hr : rank l generalizing l with
  | zero =>
    have hp := rank_pos l
    omega
  | succ n ih =>
    cases l with
    | none => rw [readOperand_none, h]
    | some l =>
      have ht := rank_tighter l
      rw [readOperand_some, ih (by omega)]
      rfl

theorem statement_else {t : Token} {ts : List Token} (ht : t.kind = .elseWord) :
    statement (t :: ts) = .error (.unexpected .expression (t :: ts)) := by
  have hskip : skipNewlines (t :: ts) = t :: ts := by simp [skipNewlines, ht]
  have hop : UnaryOp.ofKind? t.kind = none := by rw [ht]; rfl
  have hprimary : readPrimary t ts = .error (.unexpected .expression (t :: ts)) := by
    rw [readPrimary, fuelFor_eq]
    simp only [primary, ht]
  refine readOperand_error ?_
  rw [hskip, readUnary_cons, hop]
  simp only [hprimary]
  rfl

theorem skipSeparators_of_skipNewlines {ts us : List Token} {t : Token}
    (h : skipNewlines ts = t :: us) (ht : t.kind.isSeparator = false) :
    skipSeparators ts = t :: us := by
  induction ts with
  | nil => cases h
  | cons u ts ih =>
    by_cases hu : u.kind = .newline
    · rw [skipSeparators_newline hu]
      refine ih ?_
      rw [← h]
      simp [skipNewlines, hu]
    · have hskip : skipNewlines (u :: ts) = u :: ts := by simp [skipNewlines, hu]
      rw [hskip] at h
      obtain ⟨rfl, rfl⟩ := List.cons.inj h
      simp [skipSeparators, ht]

end Parser

theorem seam_of_check {b : Bytes} (hb : check b = []) (f : Int → Int) (line : Int) :
    Seam (.lineBreak line :: (bodyTokens b).map (Token.mapLine f)) := by
  refine Or.inr ⟨_, _, rfl, rfl, ?_⟩
  intro u vs hu helse
  rw [skipNewlines_map] at hu
  obtain ⟨t, us, hs, rfl, -⟩ := List.map_eq_cons_iff.mp hu
  rw [mapLine_kind] at helse
  have hskip := skipSeparators_of_skipNewlines hs (by rw [helse]; rfl)
  have hne : skipSeparators (bodyTokens b) ≠ [] := by simp [hskip]
  have herrors : (parse (scan b).tokens).errors = [] := (List.append_eq_nil_iff.mp hb).2
  rw [parse_scan, readProgram_unexpected hne (by rw [hskip, statement_else helse])] at herrors
  cases herrors

section TwoChunks

variable {a b : Bytes} (ha : check a = []) (hb : check b = [])
include ha hb

theorem parse_append_checked : parse (scan (a ++ Text.newline :: b)).tokens =
    (parse (scan a).tokens).append
      ((parse (scan b).tokens).mapLine (· + (1 + Text.newlines a))) :=
  parse_append (by simp [ha]) (seam_of_check hb _ _)

theorem statements_append : statements (a ++ Text.newline :: b) =
    statements a ++ (statements b).map (Expr.mapLine (· + (1 + Text.newlines a))) := by
  rw [statements, parse_append_checked ha hb]
  rfl

theorem check_append : check (a ++ Text.newline :: b) = [] := by
  obtain ⟨hscan, hparse⟩ := List.append_eq_nil_iff.mp ha
  obtain ⟨hscan', hparse'⟩ := List.append_eq_nil_iff.mp hb
  have hclosed := split_isClosed (s := a) (by simp [hscan])
  simp only [check, errors_append b hclosed, parse_append_checked ha hb, Program.append,
    Program.mapLine, hscan, hparse, hscan', hparse', List.map_nil, List.append_nil]

end TwoChunks

/-! ## Steps of a run -/

def Outcome.mapLine (f : Int → Int) : Outcome → Outcome
  | .value v => .value (v.mapLine f)
  | .syntaxErrors errors => .syntaxErrors (errors.map (SyntaxError.mapLine f))
  | .runtimeError e => .runtimeError (e.mapLine f)
  | .outOfFuel => .outOfFuel

namespace Interpreter

/-- With other lines in the globals, and with `earlier` printed before. -/
def relabel (f : Int → Int) (earlier : List Bytes) (i : Interpreter) : Interpreter :=
  { i with machine := i.machine.relabel f earlier }

variable {f : Int → Int} {earlier : List Bytes} {fuel : Nat}

theorem announce_relabel (i : Interpreter) (e : Expr) :
    (i.relabel f earlier).announce (e.mapLine f) = (i.announce e).relabel f earlier := by
  have hformat : (e.mapLine f).format = e.format := (Expr.format_mapLine_compositional f).expr e
  obtain ⟨m, verbose⟩ := i
  cases verbose with
  | false => rfl
  | true => simp only [announce, relabel, Machine.relabel, hformat, ↓reduceIte, List.cons_append]

theorem evaluate_relabel (m : Machine) (e : Expr) :
    (m.relabel f earlier).evaluate fuel (e.mapLine f) =
      ((m.evaluate fuel e).1.mapLine f, (m.evaluate fuel e).2.relabel f earlier) := by
  rw [Machine.evaluate, Machine.evaluate, eval_relabel]
  cases eval fuel e m with
  | ok v m' => rfl
  | error halt m' => cases halt <;> rfl

/-- Other lines in the statements and in the globals change nothing but lines. -/
theorem runStatements_relabel (es : List Expr) (i : Interpreter) (last last' : Value) (n n' : Nat)
    (hlast : es = [] → last' = last.mapLine f) :
    (runStatements fuel (i.relabel f earlier) last' n' (es.map (Expr.mapLine f))).1 =
        (runStatements fuel i last n es).1.mapLine f ∧
      (runStatements fuel (i.relabel f earlier) last' n' (es.map (Expr.mapLine f))).2.2 =
        (runStatements fuel i last n es).2.2.relabel f earlier := by
  induction es generalizing i last last' n n' with
  | nil =>
    rw [hlast rfl]
    exact ⟨rfl, rfl⟩
  | cons e es ih =>
    have hm : (i.announce e).machine.relabel f earlier =
        ((i.announce e).relabel f earlier).machine := rfl
    simp only [List.map_cons, runStatements, announce_relabel, ← hm, evaluate_relabel]
    cases hr : (i.announce e).machine.evaluate fuel e with
    | mk outcome m =>
      cases outcome with
      | value v => exact ih { i.announce e with machine := m } v (v.mapLine f) _ _ fun _ => rfl
      | _ => exact ⟨rfl, rfl⟩

/-! ## Lines of the second chunk -/

/-- The lines of the second chunk as odd numbers, and all others as even numbers. -/
def markLater (line : Int) : Int := 2 * line + 1

def markEarlier (line : Int) : Int := 2 * line

def unmark (line : Int) : Int := line / 2

/-- The lines of the second chunk moved down by `k`. -/
def moveLater (k line : Int) : Int := if line % 2 = 0 then line / 2 else line / 2 + k

theorem unmark_markEarlier (line : Int) : unmark (markEarlier line) = line := by
  simp only [unmark, markEarlier]
  omega

theorem unmark_markLater (line : Int) : unmark (markLater line) = line := by
  simp only [unmark, markLater]
  omega

theorem moveLater_markEarlier (k line : Int) : moveLater k (markEarlier line) = line := by
  unfold moveLater markEarlier
  split <;> omega

theorem moveLater_markLater (k line : Int) : moveLater k (markLater line) = line + k := by
  unfold moveLater markLater
  split <;> omega

/-- A run of a source in which its lines are marked as those of a later chunk, and the lines that
the globals have from before as earlier ones. -/
def runMarked (fuel : Nat) (i : Interpreter) (source : Bytes) : Outcome × Interpreter :=
  let steps := runStatements fuel (i.cleared.relabel markEarlier []) .null 0
    ((statements source).map (Expr.mapLine markLater))
  (steps.1, steps.2.2)

theorem map_mapLine_id (es : List Expr) : es.map (Expr.mapLine id) = es := by
  rw [List.map_congr_left fun e _ => Expr.mapLine_id_compositional.expr e, List.map_id']

/-- What a marked run says about statements that are run without marks. -/
theorem runStatements_marked (fuel : Nat) (i : Interpreter) {b : Bytes} {g h : Int → Int}
    (hearlier : ∀ l, g (markEarlier l) = l) (hlater : ∀ l, g (markLater l) = h l)
    (hb : statements b ≠ []) (earlier : List Bytes) (last : Value) (n : Nat) :
    let steps := runStatements fuel { i with machine := { i.machine with printed := earlier } } last
      n ((statements b).map (Expr.mapLine h))
    steps.1 = (runMarked fuel i b).1.mapLine g ∧
      steps.2.2 = (runMarked fuel i b).2.relabel g earlier := by
  have hstart : (i.cleared.relabel markEarlier []).relabel g earlier =
      { i with machine := { i.machine with printed := earlier } } := by
    simp only [relabel, Machine.relabel_cancel hearlier]
    rfl
  have hstatements : ((statements b).map (Expr.mapLine markLater)).map (Expr.mapLine g) =
      (statements b).map (Expr.mapLine h) := by
    rw [List.map_map]
    exact List.map_congr_left fun e _ => (Expr.mapLine_comp_compositional hlater).expr e
  rw [← hstart, ← hstatements]
  exact runStatements_relabel _ _ _ _ _ _ fun hnil => absurd (List.map_eq_nil_iff.mp hnil) hb

section JoinedRun

variable {a b : Bytes} (ha : check a = []) (hb : check b = [])
include ha hb

/-- If the first chunk gives a value, the whole goes on with the statements of the second one, and
both ways are the marked run with its marks taken off. -/
theorem run_append_value (fuel : Nat) (i : Interpreter) (hne : statements b ≠ []) {v : Value}
    (hv : (i.run fuel a).outcome = .value v) :
    let k : Int := 1 + Text.newlines a
    let first := i.run fuel a
    let second := first.after.run fuel b
    let whole := i.run fuel (a ++ Text.newline :: b)
    let marked := runMarked fuel first.after b
    whole.printed = first.printed ++ second.printed ∧
      second.outcome = marked.1.mapLine unmark ∧
      whole.outcome = marked.1.mapLine (moveLater k) ∧
      second.after.machine.scope = marked.2.machine.scope.mapLine unmark ∧
      whole.after.machine.scope = marked.2.machine.scope.mapLine (moveLater k) := by
  intro k first second whole marked
  obtain ⟨houtcome, hprinted, -, hafter⟩ := run_checked fuel i ha
  obtain ⟨houtcome', hprinted', -, hafter'⟩ := run_checked fuel first.after hb
  obtain ⟨houtcome'', hprinted'', -, hafter''⟩ := run_checked fuel i (check_append ha hb)
  generalize hsteps : runStatements fuel i.cleared .null 0 (statements a) = steps at *
  obtain ⟨outcome, log, after⟩ := steps
  obtain rfl : outcome = .value v := houtcome.symm.trans hv
  rw [statements_append ha hb, runStatements_append hsteps] at houtcome'' hprinted'' hafter''
  have hstart : { first.after with
      machine := { first.after.machine with printed := after.machine.printed } } = after := by
    rw [hafter]
    rfl
  -- Both the second run and the rest of the whole one are the marked run under other lines.
  have hsecond := runStatements_marked fuel first.after (h := id) unmark_markEarlier
    unmark_markLater hne [] .null 0
  have hwhole := runStatements_marked fuel first.after (moveLater_markEarlier k)
    (moveLater_markLater k) hne after.machine.printed v (0 + (statements a).length)
  rw [hstart] at hwhole
  rw [map_mapLine_id] at hsecond
  have hafterWhole := hafter''.trans (congrArg cleared hwhole.2)
  have hafterSecond := hafter'.trans (congrArg cleared hsecond.2)
  refine ⟨?_, houtcome'.trans hsecond.1, houtcome''.trans hwhole.1,
    congrArg (·.machine.scope) hafterSecond, congrArg (·.machine.scope) hafterWhole⟩
  have hlines := congrArg (·.machine.output) hwhole.2
  have hlines' := congrArg (·.machine.output) hsecond.2
  simp only [relabel, Machine.relabel, Machine.output, List.append_nil,
    List.reverse_append] at hlines hlines'
  calc whole.printed
      = after.machine.printed.reverse ++ marked.2.machine.printed.reverse :=
        hprinted''.trans hlines
    _ = first.printed ++ second.printed := by
      rw [hprinted, hprinted']
      exact congrArg _ hlines'.symm

/-- If the first chunk gives no value, the second one is not reached. -/
theorem run_append_stopped (fuel : Nat) (i : Interpreter)
    (hv : ∀ v, (i.run fuel a).outcome ≠ .value v) :
    let first := i.run fuel a
    let whole := i.run fuel (a ++ Text.newline :: b)
    whole.outcome = first.outcome ∧ whole.printed = first.printed ∧ whole.after = first.after ∧
      whole.log.drop 2 = first.log.drop 2 := by
  intro first whole
  obtain ⟨houtcome, hprinted, hlog, hafter⟩ := run_checked fuel i ha
  obtain ⟨houtcome', hprinted', hlog', hafter'⟩ := run_checked fuel i (check_append ha hb)
  have hstopped : ∀ v, (runStatements fuel i.cleared .null 0 (statements a)).1 ≠ .value v :=
    fun v hr => hv v (houtcome.trans hr)
  rw [statements_append ha hb, runStatements_append_stopped hstopped]
    at houtcome' hprinted' hlog' hafter'
  exact ⟨houtcome'.trans houtcome.symm, hprinted'.trans hprinted.symm,
    hafter'.trans hafter.symm, hlog'.trans hlog.symm⟩

end JoinedRun

end Interpreter

open Interpreter in
/-- Two sources without errors are run one after the other or joined by a line break. If the first
one succeeds, both ways print the same lines and end in the same way with the same globals, but for
the lines of the second source. If it does not, the second one is not evaluated at all. -/
theorem run_whole_or_chunks (fuel : Nat) (i : Interpreter) (a b : Bytes) (ha : check a = [])
    (hb : check b = []) (hne : statements b ≠ []) :
    let k : Int := 1 + Text.newlines a
    let first := i.run fuel a
    let second := first.after.run fuel b
    let whole := i.run fuel (a ++ Text.newline :: b)
    let marked := runMarked fuel first.after b
    ((∃ v, first.outcome = .value v) →
      whole.printed = first.printed ++ second.printed ∧
      second.outcome = marked.1.mapLine unmark ∧
      whole.outcome = marked.1.mapLine (moveLater k) ∧
      second.after.machine.scope = marked.2.machine.scope.mapLine unmark ∧
      whole.after.machine.scope = marked.2.machine.scope.mapLine (moveLater k)) ∧
    ((∀ v, first.outcome ≠ .value v) →
      whole.outcome = first.outcome ∧ whole.printed = first.printed ∧
      whole.after = first.after ∧ whole.log.drop 2 = first.log.drop 2) := by
  intro k first second whole marked
  refine ⟨?_, run_append_stopped ha hb fuel i⟩
  rintro ⟨v, hv⟩
  exact run_append_value ha hb fuel i hne hv

/-- Only a run that ended with a value has nothing to tell. -/
theorem Outcome.exists_value {o : Outcome} (h : o.errorText? = none) : ∃ v, o = .value v := by
  cases o with
  | value v => exact ⟨v, rfl⟩
  | _ => cases h

/-- A chunk that makes a function. -/
def lendingChunk : Bytes := bytes "f := |x| x + y\nprint(f)"

/-- A chunk that calls it. -/
def borrowingChunk : Bytes := bytes "print(x := 1)\nf(x)"

open Interpreter in
/-- The function of the first chunk fails in its own line, wherever the call stands. -/
theorem run_whole_or_chunks_borrowedLine :
    check lendingChunk = [] ∧ check borrowingChunk = [] ∧ statements borrowingChunk ≠ [] ∧
      let first := (Interpreter.new true).run 20 lendingChunk
      let second := first.after.run 20 borrowingChunk
      let whole := (Interpreter.new true).run 20 (lendingChunk ++ Text.newline :: borrowingChunk)
      let marked := runMarked 20 first.after borrowingChunk
      first.outcome.errorText? = none ∧
        whole.outcome.errorText? = some (bytes "runtime error on line 1: Undefined variable y") ∧
        whole.printed = first.printed ++ second.printed ∧
        second.outcome = marked.1.mapLine unmark ∧
        whole.outcome = marked.1.mapLine (moveLater (1 + Text.newlines lendingChunk)) ∧
        second.after.machine.scope = marked.2.machine.scope.mapLine unmark ∧
        whole.after.machine.scope =
          marked.2.machine.scope.mapLine (moveLater (1 + Text.newlines lendingChunk)) := by
  have ha : check lendingChunk = [] := by decide +kernel
  have hb : check borrowingChunk = [] := by decide +kernel
  have hne : statements borrowingChunk ≠ [] := by decide +kernel
  have hfirst : ((Interpreter.new true).run 20 lendingChunk).outcome.errorText? = none := by
    decide +kernel
  have hwhole : ((Interpreter.new true).run 20
      (lendingChunk ++ Text.newline :: borrowingChunk)).outcome.errorText? =
      some (bytes "runtime error on line 1: Undefined variable y") := by decide +kernel
  exact ⟨ha, hb, hne, hfirst, hwhole,
    (run_whole_or_chunks 20 (Interpreter.new true) lendingChunk borrowingChunk ha hb hne).1
      (Outcome.exists_value hfirst)⟩

end ExprLang
