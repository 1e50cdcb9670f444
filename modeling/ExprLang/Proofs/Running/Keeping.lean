import ExprLang.Proofs.Evaluation.Equality
import ExprLang.Proofs.Evaluation.Identities
import ExprLang.Proofs.Evaluation.Proper
import ExprLang.Proofs.Running.Steps

/-!
# What runs keep of values

A run keeps every lasting property of the globals. Three properties last: no value is one that only
a host can make, all identities of functions have been given out, and each of them to one function.
-/

namespace ExprLang

open ExprLang.Eval
open Value (Lasting)

/-- An end of an evaluation, with a value that has a property if there is one. -/
inductive Outcome.Ends (P : Value → Prop) : Outcome → Prop
  | value {v : Value} (h : P v) : Ends P (.value v)
  | runtimeError (e : RuntimeError) : Ends P (.runtimeError e)
  | outOfFuel : Ends P .outOfFuel

/-- An end with a property of its value, and the property of all values in scope. -/
def EndsAll (P : Declarations → Value → Prop) (ds : Declarations) (outcome : Outcome)
    (m : Machine) : Prop := outcome.Ends (P ds) ∧ m.All P ds

namespace Interpreter

variable {P : Declarations → Value → Prop} (hP : Lasting P) {ds : Declarations}
include hP

theorem evaluate_keeps (fuel : Nat) (e : Expr) {m : Machine} (hm : m.All P ds) :
    ∃ ks, ds <+: ks ∧ EndsAll P ks (m.evaluate fuel e).1 (m.evaluate fuel e).2 := by
  obtain ⟨ks, hk, h⟩ := resultAll_eval hP fuel e hm
  refine ⟨ks, hk, ?_⟩
  rw [Machine.evaluate]
  cases hr : eval fuel e m with
  | ok v m' =>
    rw [hr] at h
    exact ⟨.value h.1, h.2⟩
  | error halt m' =>
    rw [hr] at h
    cases halt with
    | error e => exact ⟨.runtimeError e, h⟩
    | outOfFuel => exact ⟨.outOfFuel, h⟩

omit hP in
theorem announce_all {i : Interpreter} (hi : i.machine.All P ds) (e : Expr) :
    (i.announce e).machine.All P ds := by
  unfold announce
  split
  · exact ⟨hi.fresh, hi.scope⟩
  · exact hi

theorem runStatements_keeps (fuel : Nat) (es : List Expr) {i : Interpreter}
    (hi : i.machine.All P ds) {last : Value} (hlast : P ds last) (n : Nat) :
    let steps := runStatements fuel i last n es
    ∃ ks, ds <+: ks ∧ EndsAll P ks steps.1 steps.2.2.machine := by
  induction es generalizing i last n ds with
  | nil => exact ⟨ds, List.prefix_rfl, .value hlast, hi⟩
  | cons e es ih =>
    obtain ⟨ks, hk, h⟩ := evaluate_keeps hP fuel e (announce_all hi e)
    rw [runStatements]
    cases hr : (i.announce e).machine.evaluate fuel e with
    | mk outcome m =>
      rw [hr] at h
      obtain ⟨hends, hall⟩ := h
      cases hends with
      | value hv =>
        obtain ⟨ls, hl, hrest⟩ := ih (i := { i.announce e with machine := m }) hall hv (n + 1)
        exact ⟨ls, hk.trans hl, hrest⟩
      | runtimeError e => exact ⟨ks, hk, .runtimeError e, hall⟩
      | outOfFuel => exact ⟨ks, hk, .outOfFuel, hall⟩

/-- A run that starts with the property in the globals leaves them so. -/
theorem run_keeps (fuel : Nat) (s : Bytes) {i : Interpreter} (hi : i.machine.All P ds) :
    ∃ ks, ds <+: ks ∧ (i.run fuel s).after.machine.All P ks := by
  by_cases hcheck : check s = []
  · obtain ⟨-, -, -, hafter⟩ := run_checked fuel i hcheck
    have hcleared : i.cleared.machine.All P ds := ⟨hi.fresh, hi.scope⟩
    obtain ⟨ks, hk, -, hall⟩ := runStatements_keeps hP fuel (statements s) hcleared
      (hP.plain (v := .null) rfl) 0
    rw [hafter]
    exact ⟨ks, hk, hall.fresh, hall.scope⟩
  · rw [(run_faulty fuel i hcheck).2.2]
    exact ⟨ds, List.prefix_rfl, hi⟩

theorem runAll_keeps (runs : List (Nat × Bytes)) {i : Interpreter} (hi : i.machine.All P ds) :
    ∃ ks, ds <+: ks ∧ (i.runAll runs).machine.All P ks := by
  induction runs generalizing i ds with
  | nil => exact ⟨ds, List.prefix_rfl, hi⟩
  | cons r runs ih =>
    obtain ⟨ks, hk, hall⟩ := run_keeps hP r.1 r.2 hi
    obtain ⟨ls, hl, hrest⟩ := ih hall
    exact ⟨ls, hk.trans hl, hrest⟩

/-- After any runs the globals have the property, for some list of the functions made. -/
theorem exists_all_runAll (verbose : Bool) (runs : List (Nat × Bytes)) :
    ∃ ds, ((new verbose).runAll runs).machine.All P ds := by
  obtain ⟨ds, hds⟩ := exists_declarations (new verbose).machine.fresh
  have hglobals : (new verbose).machine.scope.All (P ds) := fun frame hframe => by
    rw [List.mem_singleton.mp hframe]
    exact Frame.all_globals fun b => hP.plain rfl
  obtain ⟨ks, -, hall⟩ := runAll_keeps hP runs ⟨hds, hglobals⟩
  exact ⟨ks, hall⟩

end Interpreter

/-! ## Identities -/

/-- No identity that is given out next, or later, occurs in the globals. -/
theorem Interpreter.issued_runAll (verbose : Bool) (runs : List (Nat × Bytes)) :
    ((new verbose).runAll runs).machine.Issued := by
  obtain ⟨ds, hall⟩ := exists_all_runAll Value.lasting_issued verbose runs
  exact hall.issued

/-- No two functions in the globals have the same identity. So those values that hold no float are
equal only if they are the same. -/
theorem Interpreter.exact_runAll (verbose : Bool) (runs : List (Nat × Bytes)) :
    ∃ ds, ((new verbose).runAll runs).machine.scope.All fun v =>
      v.Declared ds ∧ (v.isFloatFree = true → v.Exact ds) := by
  obtain ⟨ds, hall⟩ := exists_all_runAll Value.lasting_declared verbose runs
  exact ⟨ds, hall.scope.imp fun v hv => ⟨hv, fun hfree => ⟨hv, hfree⟩⟩⟩

end ExprLang
