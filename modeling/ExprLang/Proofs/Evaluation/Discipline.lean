import ExprLang.Proofs.Evaluation.Frames
import ExprLang.Scope.Store

/-!
# Scope discipline

Whatever an expression calls and however it ends, it binds names in the frame it is evaluated in and
in no other frame that was there before, and it binds no other names there than those it assigns
outside blocks, branches and bodies. So a host can share frames between evaluations.
-/

namespace ExprLang

open ExprLang.Eval

namespace Store

/-- The frames an evaluation in the `n`th frame sees. -/
def scopeAt (s : Store) (n : Nat) : Scope :=
  match s.chain n with
  | [] => ⟨[], []⟩
  | top :: outer => ⟨top, outer⟩

/-- Evaluating in a stored frame writes back the innermost frame of the machine, and only that. -/
theorem frames_evaluateIn (fuel : Nat) (s : Store) (n : Nat) (e : Expr) :
    (s.evaluateIn fuel n e).2.2.frames =
      (s.setFrame n (machineOf (eval fuel e ⟨s.scopeAt n, [], s.fresh⟩)).scope.top).frames := by
  have hrun : (Machine.evaluate fuel ⟨s.scopeAt n, [], s.fresh⟩ e).2 =
      machineOf (eval fuel e ⟨s.scopeAt n, [], s.fresh⟩) := by
    unfold Machine.evaluate
    cases eval fuel e ⟨s.scopeAt n, [], s.fresh⟩ with
    | ok v m => rfl
    | error halt m => cases halt <;> rfl
  rw [← hrun]
  rfl

theorem scopeAt_top {s : Store} {n : Nat} {f : StoredFrame} (h : s.frames[n]? = some f) :
    (s.scopeAt n).top = f.frame := by
  simp only [scopeAt, chain, chainUpTo, h]

theorem setFrame_self {s : Store} {n : Nat} {f : StoredFrame} (h : s.frames[n]? = some f)
    (frame : Frame) : (s.setFrame n frame).frames[n]? = some { f with frame } := by
  simp [setFrame, h]

theorem setFrame_other (s : Store) {n i : Nat} (h : i ≠ n) (frame : Frame) :
    (s.setFrame n frame).frames[i]? = s.frames[i]? := by
  simp [setFrame, h.symm]

end Store

/-- An evaluation keeps all frames around the innermost one, also when it fails, and in the
innermost one all names that the expression does not assign outside blocks, branches and bodies. In
a store it keeps all other frames, whether or not they are around the one it runs in. -/
theorem scope_discipline (fuel : Nat) (e : Expr) :
    (∀ m : Machine,
      let after := (machineOf (eval fuel e m)).scope
      after.outer = m.scope.outer ∧
        ∀ name, name ∉ e.targets →
          List.lookup name after.top = List.lookup name m.scope.top) ∧
    ∀ (s : Store) (n : Nat),
      let after := (s.evaluateIn fuel n e).2.2
      after.frames.length = s.frames.length ∧
        (∀ i, i ≠ n → after.frames[i]? = s.frames[i]?) ∧
        ∀ f, s.frames[n]? = some f →
          ∃ g, after.frames[n]? = some g ∧ g.parent = f.parent ∧
            ∀ name, name ∉ e.targets → List.lookup name g.frame = List.lookup name f.frame := by
  refine ⟨fun m => ⟨(writes_eval fuel e m).outer, (writes_eval fuel e m).top⟩, ?_⟩
  intro s n after
  have hafter : after.frames = _ := s.frames_evaluateIn fuel n e
  refine ⟨?_, fun i hi => ?_, fun f hf => ?_⟩
  · rw [hafter, Store.setFrame, List.length_modify]
  · rw [hafter, s.setFrame_other hi]
  · have hself := Store.setFrame_self hf
      (machineOf (eval fuel e ⟨s.scopeAt n, [], s.fresh⟩)).scope.top
    rw [← hafter] at hself
    refine ⟨_, hself, rfl, fun name hname => ?_⟩
    rw [← Store.scopeAt_top hf]
    exact (writes_eval fuel e _).top name hname

/-- Assigns `a` and `b` in an argument and in a condition, and `z` in a branch and in the body of a
function only. Its last operand fails. -/
def meddling : Expr :=
  let source := bytes "print(a := 1, if b := a \x7b z := b \x7d, map(|x| z := x, 1 to 3)) + missing"
  (parse (scan source).tokens).statements.headD (.literal (.bool false))

/-- A frame with a binding of `z` inside a frame with the builtins. -/
def guarded : Store := (Store.empty.newGlobals.newFrame (some 0)).define 1 (bytes "z") (.int 7)

theorem scope_discipline_meddling :
    let after := (guarded.evaluateIn 20 1 meddling).2.2
    bytes "z" ∉ meddling.targets ∧ after.frames[0]? = guarded.frames[0]? ∧
      ∃ g, after.frames[1]? = some g ∧ g.parent = some 0 ∧
        List.lookup (bytes "z") g.frame = some (.int 7) := by
  have hz : bytes "z" ∉ meddling.targets := by decide +kernel
  obtain ⟨-, hother, hself⟩ := (scope_discipline 20 meddling).2 guarded 1
  obtain ⟨g, hg, hparent, hkeep⟩ := hself ⟨[(bytes "z", .int 7)], some 0⟩ rfl
  exact ⟨hz, hother 0 (by decide), g, hg, hparent, (hkeep _ hz).trans rfl⟩

end ExprLang
