import ExprLang.Proofs.Evaluation.Simulation
import ExprLang.Proofs.Printing.RoundTrip
import ExprLang.Proofs.Running.Steps

/-!
# Printing keeps the meaning

What is read back from a printed program is alike to the program, with groupings and blocks added.
So the two print the same lines and end in the same way.
-/

namespace ExprLang

open ExprLang.Eval

/-! ## Normal forms are alike -/

/-- Lines may change, and groupings and blocks may be added. -/
def Likeness.normal : Likeness where
  line _ _ := True
  same := Eq
  wraps := true
  framed := false
  same_iff hi hj := by rw [hi, hj]
  not_framed _ := rfl

namespace Expr

/-- Equal to the normal form up to lines. -/
def ReadAs (e e' : Expr) : Prop := e'.unlined = e.norm.unlined

theorem alikeOperand_of_grouped {e e' : Expr} (h : ∀ d, e.ReadAs d → Expr.Alike .normal e d)
    (he : e'.unlined = (e.grouped e.norm).unlined) : Expr.AlikeOperand .normal e e' := by
  unfold grouped at he
  split at he
  · exact .same (h e' he)
  · cases e' with
    | grouping d => exact .grouped rfl (h d (Expr.grouping.inj he))
    | _ => cases he

theorem alikeBranch_of_braced {e e' : Expr} (h : ∀ d, e.ReadAs d → Expr.Alike .normal e d)
    (he : e'.unlined = (e.braced e.norm).unlined) : Expr.AlikeBranch .normal e e' := by
  unfold braced at he
  split at he
  · exact .same (h e' he)
  · cases e' with
    | block line body =>
      have hbody := (Expr.block.inj he).2
      rw [mapLines_eq, mapLines_eq] at hbody
      obtain ⟨d, rfl, hd⟩ := List.map_eq_singleton_iff.mp hbody
      exact .braced rfl (h d hd)
    | _ => cases he

theorem forall₂_of_readAs {R : Expr → Expr → Prop} {es es' : List Expr}
    (h : ∀ e ∈ es, ∀ d, e.ReadAs d → R e d)
    (hes : es'.map unlined = es.map fun e => e.norm.unlined) : List.Forall₂ R es es' := by
  induction es generalizing es' with
  | nil =>
    rw [List.map_eq_nil_iff.mp hes]
    exact .nil
  | cons e es ih =>
    obtain ⟨d, ds, rfl, hd, hds⟩ := List.map_eq_cons_iff.mp hes
    obtain ⟨he, hrest⟩ := List.forall_mem_cons.mp h
    exact .cons (he d hd) (ih hrest hds)

theorem alikeAll_of_normAll {es es' : List Expr}
    (h : ∀ e ∈ es, ∀ d, e.ReadAs d → Expr.Alike .normal e d)
    (hes : mapLines (fun _ => 0) es' = mapLines (fun _ => 0) (normAll es)) :
    List.Forall₂ (Expr.Alike .normal) es es' := by
  rw [mapLines_eq, mapLines_eq, normAll_eq, List.map_map] at hes
  exact forall₂_of_readAs h hes

theorem alike_compositional :
    Compositional (fun e => ∀ e', e.ReadAs e' → Expr.Alike .normal e e')
      (fun b => ∀ b', b'.mapLine (fun _ => 0) = b.norm.mapLine (fun _ => 0) →
        Branches.Alike .normal b b') where
  literal value e' h := by
    cases e' with
    | literal v =>
      obtain rfl := Expr.literal.inj h
      exact .literal v
    | _ => cases h
  var name line e' h := by
    match e', h with
    | .variable name' line', h =>
      obtain ⟨rfl, -⟩ := Expr.variable.inj h
      exact .var trivial
  grouping inner ih e' h := by
    cases e' with
    | grouping inner' => exact .grouping (ih inner' (Expr.grouping.inj h))
    | _ => cases h
  unary op spelling line e ih e' h := by
    cases e' with
    | unary op' spelling' line' d =>
      obtain ⟨rfl, rfl, -, hd⟩ := Expr.unary.inj h
      exact .unary trivial (alikeOperand_of_grouped ih hd)
    | _ => cases h
  binary left op spelling line right hl hr e' h := by
    cases e' with
    | binary left' op' spelling' line' right' =>
      obtain ⟨ha, rfl, rfl, -, hb⟩ := Expr.binary.inj h
      exact .binary trivial (alikeOperand_of_grouped hl ha) (alikeOperand_of_grouped hr hb)
    | _ => cases h
  assign name line value ih e' h := by
    cases e' with
    | assign name' line' value' =>
      obtain ⟨rfl, -, hv⟩ := Expr.assign.inj h
      exact .assign trivial (ih value' hv)
    | _ => cases h
  block line body ih e' h := by
    cases e' with
    | block line' body' => exact .block trivial (alikeAll_of_normAll ih (Expr.block.inj h).2)
    | _ => cases h
  cond line test yes no ht hy hn e' h := by
    cases e' with
    | cond line' test' yes' no' =>
      obtain ⟨-, htest, hyes, hno⟩ := Expr.cond.inj h
      exact .cond trivial (alikeOperand_of_grouped ht htest) (alikeBranch_of_braced hy hyes)
        (hn no' hno)
    | _ => cases h
  each line name items body hi hb e' h := by
    cases e' with
    | each line' name' items' body' =>
      obtain ⟨-, rfl, hitems, hbody⟩ := Expr.each.inj h
      exact .each trivial (alikeOperand_of_grouped hi hitems) (alikeBranch_of_braced hb hbody)
    | _ => cases h
  function line params body ih e' h := by
    cases e' with
    | function line' params' body' =>
      obtain ⟨-, rfl, hbody⟩ := Expr.function.inj h
      exact .function trivial (ih body' hbody)
    | _ => cases h
  call callee line args hc ha e' h := by
    cases e' with
    | call callee' line' args' =>
      obtain ⟨hcallee, -, hargs⟩ := Expr.call.inj h
      exact .call trivial (alikeOperand_of_grouped hc hcallee) (alikeAll_of_normAll ha hargs)
    | _ => cases h
  done b' h := by
    cases b' with
    | done => exact .done
    | _ => cases h
  otherwise body ih b' h := by
    cases b' with
    | otherwise body' => exact .otherwise (alikeBranch_of_braced ih (Branches.otherwise.inj h))
    | _ => cases h
  elseIf test yes no ht hy hn b' h := by
    cases b' with
    | elseIf test' yes' no' =>
      obtain ⟨htest, hyes, hno⟩ := Branches.elseIf.inj h
      exact .elseIf (alikeOperand_of_grouped ht htest) (alikeBranch_of_braced hy hyes) (hn no' hno)
    | _ => cases h

end Expr

/-! ## Runs -/

/-- Whether a run came to its end. -/
def Outcome.isFinal : Outcome → Bool
  | .outOfFuel => false
  | _ => true

/-- Values that look the same, or errors of the same kind with the same message. -/
inductive Outcome.Matches : Outcome → Outcome → Prop
  | value {v w : Value} (htext : v.text = w.text) (htype : v.typeName = w.typeName)
    (htruthy : v.truthy = w.truthy) : Outcome.Matches (.value v) (.value w)
  | runtimeError {e e' : RuntimeError} (hkind : e.cause.kind = e'.cause.kind)
    (hmessage : e.message = e'.message) :
    Outcome.Matches (.runtimeError e) (.runtimeError e')

namespace Interpreter

theorem announce_alike {i i' : Interpreter} (hm : i.machine.Alike .normal i'.machine)
    (hv : i.verbose = i'.verbose) {e e' : Expr} (he : e'.format = e.format) :
    (i.announce e).machine.Alike .normal (i'.announce e').machine ∧
      (i.announce e).verbose = (i'.announce e').verbose := by
  cases hverbose : i.verbose with
  | false =>
    rw [announce, announce, ← hv, hverbose, if_neg Bool.false_ne_true, if_neg Bool.false_ne_true]
    exact ⟨hm, hv⟩
  | true =>
    rw [announce, announce, ← hv, hverbose, if_pos rfl, if_pos rfl, he]
    exact ⟨⟨hm.scope, congrArg (e.format :: ·) hm.printed, hm.fresh⟩, rfl⟩

theorem runStatements_matches {fuel k : Nat} (hk : 2 * fuel ≤ k) {es es' : List Expr}
    (h : List.Forall₂ Expr.ReadAs es es') {i i' : Interpreter}
    (hm : i.machine.Alike .normal i'.machine) (hv : i.verbose = i'.verbose) {last last' : Value}
    (hlast : Value.Alike .normal last last') (n : Nat)
    (hf : (runStatements fuel i last n es).1.isFinal = true) :
    (runStatements fuel i last n es).1.Matches (runStatements k i' last' n es').1 ∧
      (runStatements fuel i last n es).2.2.machine.printed =
        (runStatements k i' last' n es').2.2.machine.printed := by
  induction h generalizing i i' last last' n with
  | nil => exact ⟨.value hlast.text hlast.typeName hlast.truthy, hm.printed⟩
  | @cons e e' es es' he _ ih =>
    have hformat : e'.format = e.format := by
      rw [← e'.format_unlined, he, Expr.format_unlined, Expr.format_norm]
    obtain ⟨hm', hv'⟩ := announce_alike hm hv hformat
    have hsim := eval_simulates (L := .normal) hk (Expr.alike_compositional.expr e e' he) _ _ hm'
    simp only [runStatements, Machine.evaluate] at hf ⊢
    generalize eval fuel e (i.announce e).machine = r at hsim hf ⊢
    generalize eval k e' (i'.announce e').machine = r' at hsim hf ⊢
    cases hsim with
    | @ok v w m m' hvalue hn =>
      have hnext : (Interpreter.mk m (i.announce e).verbose).machine.Alike .normal
          (Interpreter.mk m' (i'.announce e').verbose).machine := hn
      exact ih hnext hv' hvalue (n + 1) hf
    | error hl hn => exact ⟨.runtimeError rfl rfl, hn.printed⟩
    | outOfFuel m r => cases hf

theorem run_new {s : Bytes} (h : check s = []) (fuel : Nat) (verbose : Bool) :
    let steps := runStatements fuel (new verbose) .null 0 (parse (scan s).tokens).statements
    ((new verbose).run fuel s).outcome = steps.1 ∧
      ((new verbose).run fuel s).printed = steps.2.2.machine.printed.reverse := by
  obtain ⟨houtcome, hprinted, -, -⟩ := run_checked fuel (new verbose) h
  exact ⟨houtcome, hprinted⟩

theorem new_alike (verbose : Bool) :
    (Interpreter.new verbose).machine.Alike .normal (Interpreter.new verbose).machine := by
  refine ⟨⟨fun name => ?_, fun hframed => by cases hframed⟩, rfl, fun n => rfl⟩
  have hglobals : Frame.Alike .normal (.globals ⟨0, false⟩) (.globals ⟨0, false⟩) := by
    rw [Frame.Alike, List.forall₂_same]
    intro p hp
    obtain ⟨b, -, rfl⟩ := List.mem_map.mp hp
    exact ⟨rfl, .builtin b _⟩
  have hempty : Scope.Alike .normal ⟨[], []⟩ ⟨[], []⟩ :=
    ⟨fun _ => .none, fun hframed => by cases hframed⟩
  exact (hempty.push hglobals).lookup name

end Interpreter

theorem check_formatProgram {es : List Expr} (h : ∀ e ∈ es, e.isWellFormed = true) :
    check (Expr.formatProgram es) = [] := by
  obtain ⟨es', hparse, -⟩ := parse_formatProgram h
  simp only [check, Expr.scan_formatProgram_errors h, hparse, List.append_nil]

/-- If a source without syntax errors runs to its end in a fresh interpreter, then so does its
printed form, with the same lines printed and the same outcome. -/
theorem format_keeps_meaning (verbose : Bool) (s : Bytes) (fuel : Nat) (hs : check s = [])
    (hf : ((Interpreter.new verbose).run fuel s).outcome.isFinal = true) (k : Nat)
    (hk : 2 * fuel ≤ k) :
    let formatted := Expr.formatProgram (parse (scan s).tokens).statements
    let before := (Interpreter.new verbose).run fuel s
    let after := (Interpreter.new verbose).run k formatted
    check formatted = [] ∧ before.printed = after.printed ∧
      before.outcome.Matches after.outcome := by
  intro formatted before after
  have hwell := statements_areWellFormed s
  have hcheck : check formatted = [] := check_formatProgram hwell
  obtain ⟨es', hparse, hnorm⟩ := parse_formatProgram hwell
  have hread : List.Forall₂ Expr.ReadAs (parse (scan s).tokens).statements
      (parse (scan formatted).tokens).statements := by
    rw [hparse]
    exact Expr.forall₂_of_readAs (fun _ _ _ hd => hd) hnorm
  obtain ⟨houtcome, hprinted⟩ := Interpreter.run_new hs fuel verbose
  obtain ⟨houtcome', hprinted'⟩ := Interpreter.run_new hcheck k verbose
  rw [houtcome] at hf
  have hrun := Interpreter.runStatements_matches hk hread (Interpreter.new_alike verbose) rfl
    .null 0 hf
  refine ⟨hcheck, ?_, ?_⟩
  · rw [hprinted, hprinted', hrun.2]
  · rw [houtcome, houtcome']
    exact hrun.1

/-- Recursion in branches that are assignments and not blocks. The last statement fails, since what
a branch defines is gone behind it. -/
def countdown : Bytes :=
  bytes "f := |x| if x > 0 y := f(x - 1) + x else y := x\nprint(f(2))\ny"

theorem format_keeps_meaning_countdown :
    check countdown = [] ∧
      ((Interpreter.new true).run 20 countdown).outcome.isFinal = true ∧
      let formatted := Expr.formatProgram (parse (scan countdown).tokens).statements
      let before := (Interpreter.new true).run 20 countdown
      let after := (Interpreter.new true).run 40 formatted
      check formatted = [] ∧ before.printed = after.printed ∧
        before.outcome.Matches after.outcome := by
  have hcheck : check countdown = [] := by decide +kernel
  have hfinal : ((Interpreter.new true).run 20 countdown).outcome.isFinal = true := by
    decide +kernel
  exact ⟨hcheck, hfinal, format_keeps_meaning true countdown 20 hcheck hfinal 40 (by decide)⟩

end ExprLang
