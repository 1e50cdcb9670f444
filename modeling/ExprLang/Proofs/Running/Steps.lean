import ExprLang.Interpreter

/-!
# A run as its statements

A run of a source without syntax errors is the evaluation of its statements one after the other; one
of any other source does nothing.
-/

namespace ExprLang

/-- The statements of a source. -/
def statements (source : Bytes) : List Expr := (parse (scan source).tokens).statements

namespace Interpreter

variable {fuel : Nat}

/-- With nothing printed yet. -/
def cleared (i : Interpreter) : Interpreter :=
  { i with machine := { i.machine with printed := [] } }

/-- Run sources one after the other, each with its fuel. -/
def runAll (i : Interpreter) (runs : List (Nat × Bytes)) : Interpreter :=
  runs.foldl (fun i r => (i.run r.1 r.2).after) i

/-- Statements after those that gave a value. -/
theorem runStatements_append {es : List Expr} {i after : Interpreter} {last v : Value} {n : Nat}
    {log : List LogEntry} (h : runStatements fuel i last n es = (.value v, log, after))
    (fs : List Expr) :
    runStatements fuel i last n (es ++ fs) =
      ((runStatements fuel after v (n + es.length) fs).1,
        log ++ (runStatements fuel after v (n + es.length) fs).2.1,
        (runStatements fuel after v (n + es.length) fs).2.2) := by
  induction es generalizing i last n log with
  | nil =>
    cases h
    rfl
  | cons e es ih =>
    simp only [List.cons_append, runStatements] at h ⊢
    cases hr : (i.announce e).machine.evaluate fuel e with
    | mk outcome m =>
      rw [hr] at h
      cases outcome with
      | value w =>
        simp only [Prod.mk.injEq] at h ⊢
        obtain ⟨hv, rfl, hafter⟩ := h
        rw [ih (Prod.ext hv (Prod.ext rfl hafter)), List.length_cons, Nat.add_right_comm,
          Nat.add_assoc]
        exact ⟨rfl, rfl, rfl⟩
      | _ => cases h

/-- Statements after those that gave no value are not evaluated. -/
theorem runStatements_append_stopped {es : List Expr} {i : Interpreter} {last : Value} {n : Nat}
    (h : ∀ v, (runStatements fuel i last n es).1 ≠ .value v) (fs : List Expr) :
    runStatements fuel i last n (es ++ fs) = runStatements fuel i last n es := by
  induction es generalizing i last n with
  | nil => exact absurd rfl (h last)
  | cons e es ih =>
    simp only [List.cons_append, runStatements] at h ⊢
    cases hr : (i.announce e).machine.evaluate fuel e with
    | mk outcome m =>
      rw [hr] at h
      cases outcome with
      | value w => simp only [ih h]
      | _ => rfl

/-- A run of a source without syntax errors. Its log starts with two milestones. -/
theorem run_checked (fuel : Nat) (i : Interpreter) {s : Bytes} (hs : check s = []) :
    let steps := runStatements fuel i.cleared .null 0 (statements s)
    (i.run fuel s).outcome = steps.1 ∧ (i.run fuel s).printed = steps.2.2.machine.output ∧
      (i.run fuel s).log.drop 2 = steps.2.1 ∧ (i.run fuel s).after = steps.2.2.cleared := by
  obtain ⟨hscan, hparse⟩ := List.append_eq_nil_iff.mp hs
  simp only [run, hscan, hparse]
  exact ⟨rfl, rfl, rfl, rfl⟩

/-- With syntax errors nothing happens. -/
theorem run_faulty (fuel : Nat) (i : Interpreter) {s : Bytes} (hs : check s ≠ []) :
    (i.run fuel s).outcome = .syntaxErrors (check s) ∧ (i.run fuel s).printed = [] ∧
      (i.run fuel s).after = i := by
  unfold run
  dsimp only
  split
  · rename_i hnil
    exact absurd hnil hs
  · exact ⟨rfl, rfl, rfl⟩

end Interpreter

end ExprLang
