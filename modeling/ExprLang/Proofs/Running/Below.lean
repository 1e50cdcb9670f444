import ExprLang.Proofs.Running.Chunks

/-!
# Sources below empty lines

Lines are relative positions. Line breaks above a source move its tokens, its errors and the lines
in its statements down, and a run of it prints the same and ends in the same way, that much further
down.
-/

namespace ExprLang

open ExprLang.Parser

/-- A source below `k` line breaks. -/
def below (k : Nat) (s : Bytes) : Bytes := List.replicate k Text.newline ++ s

/-! ## Scanning -/

theorem Piece.split_below (k : Nat) (s : Bytes) :
    split (below k s) = List.replicate k lineBreak ++ split s := by
  induction k with
  | zero => rfl
  | succ k ih =>
    show split (Text.newline :: below k s) = _
    rw [split_newline, ih]
    rfl

theorem newlines_below (k : Nat) (s : Bytes) :
    Text.newlines (below k s) = k + Text.newlines s := by
  rw [below, Piece.newlines_append]
  simp [Text.newlines]

/-- The line on which the pieces of the source start. -/
theorem newlines_lineBreaks (k : Nat) :
    Text.newlines ((List.replicate k Piece.lineBreak).flatMap Piece.text) = k := by
  induction k with
  | zero => rfl
  | succ k ih =>
    rw [List.replicate_succ, List.flatMap_cons, Piece.newlines_append, ih]
    show 1 + k = k + 1
    omega

theorem bodyTokens_below (k : Nat) (s : Bytes) :
    bodyTokens (below k s) = Piece.tokensFrom 1 (List.replicate k Piece.lineBreak) ++
      (bodyTokens s).map (Token.mapLine (· + k)) := by
  rw [bodyTokens, Piece.split_below, Piece.tokensFrom_append, newlines_lineBreaks,
    Piece.tokensFrom_shift]
  rfl

theorem errors_below (k : Nat) (s : Bytes) :
    (scan (below k s)).errors = (scan s).errors.map (SyntaxError.mapLine (· + k)) := by
  have hbreaks : Piece.errorsFrom 1 (List.replicate k Piece.lineBreak) = [] := by
    refine Piece.errorsFrom_eq_nil fun p hp n => ?_
    rw [List.eq_of_mem_replicate hp]
    rfl
  simp only [Piece.scan_eq]
  rw [Piece.split_below, Piece.errorsFrom_append, hbreaks, newlines_lineBreaks,
    Piece.errorsFrom_shift]
  rfl

theorem eof_below (k : Nat) (s : Bytes) : Token.eof (1 + Text.newlines (below k s)) =
    (Token.eof (1 + Text.newlines s)).mapLine (· + k) := by
  simp only [Token.eof, Token.mapLine, newlines_below]
  congr 1
  omega

/-! ## Parsing -/

theorem skipSeparators_lineBreaks (line : Int) (k : Nat) :
    skipSeparators (Piece.tokensFrom line (List.replicate k Piece.lineBreak)) = [] := by
  refine List.dropWhile_eq_nil_iff.mpr fun t ht => ?_
  have hpiece := List.eq_of_mem_replicate (Piece.mem_of_mem_tokensFrom ht)
  have hkind : t.kind = .newline := (Piece.token.inj hpiece).1
  simp [hkind, TokenKind.isSeparator]

theorem parse_below (k : Nat) (s : Bytes) :
    parse (scan (below k s)).tokens = (parse (scan s).tokens).mapLine (· + k) := by
  have hskip := skipSeparators_append_of_nil (skipSeparators_lineBreaks 1 k)
    ((bodyTokens s).map (Token.mapLine (· + k)))
  rw [parse_scan, parse_scan, bodyTokens_below, eof_below, readProgram_congr _ hskip,
    readProgram_map]

theorem check_below (k : Nat) (s : Bytes) :
    check (below k s) = (check s).map (SyntaxError.mapLine (· + k)) := by
  simp only [check, errors_below, parse_below, Program.mapLine, List.map_append]

theorem statements_below (k : Nat) (s : Bytes) :
    statements (below k s) = (statements s).map (Expr.mapLine (· + k)) := by
  rw [statements, parse_below]
  rfl

/-! ## Running -/

open Interpreter in
/-- There are no lines in new globals, so moving all lines down changes the statements only. -/
theorem runStatements_below (verbose : Bool) (fuel k : Nat) (s : Bytes) :
    let steps := runStatements fuel (new verbose).cleared .null 0 (statements s)
    let lower := runStatements fuel (new verbose).cleared .null 0 (statements (below k s))
    lower.1 = steps.1.mapLine (· + k) ∧ lower.2.2 = steps.2.2.relabel (· + k) [] := by
  have hstart : (new verbose).cleared.relabel (· + (k : Int)) [] = (new verbose).cleared := rfl
  obtain ⟨hsame, hend⟩ := @runStatements_relabel (· + (k : Int)) [] fuel (statements s)
    (new verbose).cleared .null .null 0 0 fun _ => rfl
  rw [hstart, ← statements_below] at hsame hend
  exact ⟨hsame, hend⟩

open Interpreter in
/-- A run of a source below `k` line breaks in a new interpreter prints what a run of the source
prints, and has the same outcome and leaves the same globals but for the lines, all of which are
larger by `k`. -/
theorem run_below (verbose : Bool) (fuel k : Nat) (s : Bytes) :
    let run := (new verbose).run fuel s
    let lower := (new verbose).run fuel (below k s)
    lower.printed = run.printed ∧ lower.outcome = run.outcome.mapLine (· + k) ∧
      lower.after.machine.scope = run.after.machine.scope.mapLine (· + k) := by
  intro run lower
  by_cases hs : check s = []
  · have hlow : check (below k s) = [] := by rw [check_below, hs, List.map_nil]
    obtain ⟨houtcome, hprinted, -, hafter⟩ := run_checked fuel (new verbose) hs
    obtain ⟨houtcome', hprinted', -, hafter'⟩ := run_checked fuel (new verbose) hlow
    obtain ⟨hsame, hend⟩ := runStatements_below verbose fuel k s
    refine ⟨?_, ?_, ?_⟩
    · show ((new verbose).run fuel (below k s)).printed = ((new verbose).run fuel s).printed
      rw [hprinted', hprinted, hend]
      simp only [relabel, Machine.relabel, Machine.output, List.append_nil]
    · exact houtcome'.trans (hsame.trans (congrArg (Outcome.mapLine _) houtcome.symm))
    · show ((new verbose).run fuel (below k s)).after.machine.scope =
        ((new verbose).run fuel s).after.machine.scope.mapLine _
      rw [hafter', hafter, hend]
      rfl
  · have hlow : check (below k s) ≠ [] := by
      rw [check_below]
      exact fun hnil => hs (List.map_eq_nil_iff.mp hnil)
    obtain ⟨houtcome, hprinted, hafter⟩ := run_faulty fuel (new verbose) hs
    obtain ⟨houtcome', hprinted', hafter'⟩ := run_faulty fuel (new verbose) hlow
    refine ⟨hprinted'.trans hprinted.symm, ?_, ?_⟩
    · show ((new verbose).run fuel (below k s)).outcome = _
      rw [houtcome', houtcome, check_below]
      rfl
    · show ((new verbose).run fuel (below k s)).after.machine.scope = _
      rw [hafter', hafter]
      rfl

/-- A failing call names the line in the function where the error is. -/
example :
    let s := bytes "f := |x|\nx + y\nf(0)"
    ((Interpreter.new false).run 20 s).outcome.errorText? =
        some (bytes "runtime error on line 2: Undefined variable y") ∧
      ((Interpreter.new false).run 20 (below 3 s)).outcome.errorText? =
        some (bytes "runtime error on line 5: Undefined variable y") := by
  decide +kernel

end ExprLang
