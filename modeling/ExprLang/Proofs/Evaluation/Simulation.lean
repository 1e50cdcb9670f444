import ExprLang.Proofs.Evaluation.Alike
import ExprLang.Proofs.Evaluation.Frames

/-!
# Alike expressions evaluate alike

From alike machines, alike expressions give alike values or errors with the same cause, print the
same lines and leave alike machines again. The frame of a block that was added around a branch holds
nothing that the frame of the branch would not hold, and both are gone at the end. Each added
grouping or block costs one more unit of fuel, so twice the fuel is enough.
-/

namespace ExprLang

namespace Eval

variable {L : Likeness} {α β γ δ : Type}

/-- Alike results. Nothing is asked of what stands against an evaluation that ran out of fuel. -/
inductive ResultAlike (L : Likeness) {α β : Type} (R : α → β → Prop) :
    EStateM.Result Halt Machine α → EStateM.Result Halt Machine β → Prop
  | ok {v : α} {w : β} {m m' : Machine} (h : R v w) (hm : m.Alike L m') :
    ResultAlike L R (.ok v m) (.ok w m')
  | error {cause : RuntimeCause} {l l' : Int} {m m' : Machine} (hl : L.line l l')
    (hm : m.Alike L m') :
    ResultAlike L R (.error (.error ⟨cause, l⟩) m) (.error (.error ⟨cause, l'⟩) m')
  | outOfFuel (m : Machine) (r : EStateM.Result Halt Machine β) :
    ResultAlike L R (.error .outOfFuel m) r

/-- From alike machines the two give alike results. -/
def Simulates (L : Likeness) {α β : Type} (R : α → β → Prop) (x : Eval α) (y : Eval β) : Prop :=
  ∀ m m', m.Alike L m' → ResultAlike L R (x m) (y m')

/-! ## Effects -/

section Effects

variable {R : α → β → Prop} {S : γ → δ → Prop}

theorem simulates_pure {v : α} {w : β} (h : R v w) : Simulates L R (pure v) (pure w) :=
  fun _ _ hm => .ok h hm

theorem simulates_fail (cause : RuntimeCause) {l l' : Int} (hl : L.line l l') :
    Simulates L R (fail cause l) (fail cause l') :=
  fun _ _ hm => .error hl hm

theorem simulates_outOfFuel (y : Eval β) : Simulates L R (throw .outOfFuel) y :=
  fun m m' _ => .outOfFuel m (y m')

theorem Simulates.bind {x : Eval α} {y : Eval β} {f : α → Eval γ} {g : β → Eval δ}
    (h : Simulates L R x y) (hk : ∀ v w, R v w → Simulates L S (f v) (g w)) :
    Simulates L S (x >>= f) (y >>= g) := by
  intro m m' hm
  have hxy := h m m' hm
  generalize hx : x m = r at hxy
  generalize hy : y m' = r' at hxy
  cases hxy with
  | ok hv hn =>
    rw [bind_ok hx, bind_ok hy]
    exact hk _ _ hv _ _ hn
  | error hl hn =>
    rw [bind_error hx, bind_error hy]
    exact .error hl hn
  | outOfFuel n r =>
    rw [bind_error hx]
    exact .outOfFuel _ _

theorem simulates_lookup (name : Bytes) {l l' : Int} (hl : L.line l l') :
    Simulates L (Value.Alike L) (lookup name l) (lookup name l') := by
  intro m m' hm
  have hv := hm.scope.lookup name
  generalize hx : m.scope.lookup name = a at hv
  generalize hy : m'.scope.lookup name = b at hv
  cases hv with
  | some hv =>
    rw [lookup_some hx, lookup_some hy]
    exact .ok hv hm
  | none =>
    rw [lookup_none hx, lookup_none hy]
    exact .error hl hm

theorem simulates_define (name : Bytes) {v w : Value} (h : Value.Alike L v w) :
    Simulates L (fun _ _ => True) (define name v) (define name w) :=
  fun _ _ hm => .ok trivial ⟨hm.scope.define name h, hm.printed, hm.fresh⟩

theorem simulates_print (line : Bytes) :
    Simulates L (fun _ _ => True) (print line) (print line) :=
  fun _ _ hm => .ok trivial ⟨hm.scope, congrArg (line :: ·) hm.printed, hm.fresh⟩

theorem simulates_newFunction (params : List Bytes) {body body' : Expr}
    (h : Expr.Alike L body body') :
    Simulates L (Value.Alike L) (newFunction params body) (newFunction params body') := by
  intro m m' hm
  refine .ok (.function (hm.fresh 0) h) ⟨hm.scope, hm.printed, fun n => ?_⟩
  have hnext := hm.fresh (1 + n)
  rwa [← Nat.add_assoc, ← Nat.add_assoc] at hnext

theorem ResultAlike.withScope {r : EStateM.Result Halt Machine α}
    {r' : EStateM.Result Halt Machine β} (h : ResultAlike L R r r') {s t : Scope}
    (hs : s.Alike L t) : ResultAlike L R (withScope s r) (withScope t r') := by
  cases h with
  | ok hv hm => exact .ok hv ⟨hs, hm.printed, hm.fresh⟩
  | error hl hm => exact .error hl ⟨hs, hm.printed, hm.fresh⟩
  | outOfFuel m r => exact .outOfFuel _ _

theorem Simulates.inFrame {x : Eval α} {y : Eval β} (h : Simulates L R x y) (hx : KeepsOuter x)
    (hy : KeepsOuter y) {f g : Frame} (hf : Frame.Alike L f g) :
    Simulates L R (inFrame f x) (inFrame g y) := by
  intro m m' hm
  rw [inFrame_eq hx, inFrame_eq hy]
  refine (h _ _ ?_).withScope hm.scope
  exact ⟨hm.scope.push hf, hm.printed, hm.fresh⟩

/-- One more frame inside a frame makes no difference, unless frames are compared one by one. -/
theorem Simulates.inFrames {x : Eval α} {y : Eval β} (h : Simulates L R x y) (hx : KeepsOuter x)
    (hy : KeepsOuter y) {f g : Frame} (hf : Frame.Alike L f g) (hL : L.framed = false) :
    Simulates L R (Eval.inFrame f x) (Eval.inFrame g (Eval.inFrame [] y)) := by
  intro m m' hm
  rw [inFrame_eq hx, inFrame_eq (hy.inFrame []), inFrame_eq hy, withScope_withScope]
  refine (h _ _ ?_).withScope hm.scope
  exact ⟨(hm.scope.push hf).push_nil hL, hm.printed, hm.fresh⟩

end Effects

/-! ## Operators -/

theorem simulates_ofOperator (cause : RuntimeCause) {l l' : Int} (hl : L.line l l')
    {r r' : Except OperatorFault Value} (h : AlikeAnswer L r r') :
    Simulates L (Value.Alike L) (ofOperator cause l r) (ofOperator cause l' r') := by
  cases h with
  | ok hv => exact simulates_pure hv
  | error fault => cases fault <;> exact simulates_fail _ hl

theorem simulates_unaryOp (op : UnaryOp) {l l' : Int} (hl : L.line l l') {v w : Value}
    (h : Value.Alike L v w) :
    Simulates L (Value.Alike L) (unaryOp op l v) (unaryOp op l' w) := by
  cases op with
  | minus =>
    rw [unaryOp, unaryOp, h.typeName]
    exact simulates_ofOperator _ hl h.negate
  | not =>
    rw [unaryOp, unaryOp, h.truthy]
    exact simulates_pure (.bool _)

theorem simulates_rangeOf {l l' : Int} (hl : L.line l l') {a a' b b' : Value}
    (ha : Value.Alike L a a') (hb : Value.Alike L b b') :
    Simulates L (Value.Alike L) (rangeOf l a b) (rangeOf l' a' b') := by
  have hfail : Simulates L (Value.Alike L) (fail (.badBounds a.typeName b.typeName) l)
      (fail (.badBounds a'.typeName b'.typeName) l') := by
    rw [ha.typeName, hb.typeName]
    exact simulates_fail _ hl
  cases ha with
  | int x =>
    cases hb with
    | int y => exact simulates_pure (.range x y)
    | _ => exact hfail
  | _ => exact hfail

theorem simulates_binaryOp (op : BinaryOp) (spelling : Bytes) {l l' : Int} (hl : L.line l l')
    {a a' b b' : Value} (ha : Value.Alike L a a') (hb : Value.Alike L b b') :
    Simulates L (Value.Alike L) (binaryOp op spelling l a b) (binaryOp op spelling l' a' b') := by
  have hother : Simulates L (Value.Alike L)
      (ofOperator (.unsupportedOperands spelling a.typeName b.typeName) l (a.operate op b))
      (ofOperator (.unsupportedOperands spelling a'.typeName b'.typeName) l'
        (a'.operate op b')) := by
    rw [ha.typeName, hb.typeName]
    exact simulates_ofOperator _ hl (ha.operate op hb)
  match op with
  | .equal =>
    rw [binaryOp, binaryOp, ha.equals hb]
    exact simulates_pure (.bool _)
  | .notEqual =>
    rw [binaryOp, binaryOp, ha.equals hb]
    exact simulates_pure (.bool _)
  | .and =>
    rw [binaryOp, binaryOp, ha.truthy]
    split
    · exact simulates_pure hb
    · exact simulates_pure ha
  | .or =>
    rw [binaryOp, binaryOp, ha.truthy]
    split
    · exact simulates_pure ha
    · exact simulates_pure hb
  | .to => exact simulates_rangeOf hl ha hb
  | .greater | .less | .greaterEqual | .lessEqual | .plus | .minus | .slash | .star =>
    exact hother

/-! ## Loops -/

section Folds

variable {R : α → β → Prop} {f : α → Value → Eval α} {g : β → Value → Eval β}
  (hstep : ∀ s t v w, R s t → Value.Alike L v w → Simulates L R (f s v) (g t w))
include hstep

theorem simulates_foldValues {vs ws : List Value} (h : List.Forall₂ (Value.Alike L) vs ws) {s : α}
    {t : β} (hst : R s t) : Simulates L R (foldValues f vs s) (foldValues g ws t) := by
  induction h generalizing s t with
  | nil => exact simulates_pure hst
  | cons hv _ ih => exact (hstep s t _ _ hst hv).bind fun s t hst => ih hst

theorem simulates_foldSpan (count : Nat) (start : Int64) {s : α} {t : β} (hst : R s t) :
    Simulates L R (foldSpan f count start s) (foldSpan g count start t) := by
  induction count generalizing start s t with
  | zero => exact simulates_pure hst
  | succ count ih =>
    exact (hstep s t _ _ hst (.int start)).bind fun s t hst => ih (start + 1) hst

theorem simulates_foldItems {items items' : Items} (h : Items.Alike L items items') {s : α} {t : β}
    (hst : R s t) : Simulates L R (foldItems f items s) (foldItems g items' t) := by
  cases h with
  | values h => exact simulates_foldValues hstep h hst
  | span start count => exact simulates_foldSpan hstep count start hst

end Folds

section Loops

variable {items items' : Items} (hitems : Items.Alike L items items')
include hitems

theorem simulates_mapItems {f g : Value → Eval Value}
    (h : ∀ v w, Value.Alike L v w → Simulates L (Value.Alike L) (f v) (g w)) :
    Simulates L (Value.Alike L) (mapItems f items) (mapItems g items') := by
  refine Simulates.bind (R := List.Forall₂ (Value.Alike L))
    (simulates_foldItems (fun s t v w hst hv => ?_) hitems .nil) fun vs ws hvs => ?_
  · exact (h v w hv).bind fun a b hab => simulates_pure (.cons hab hst)
  · exact simulates_pure (.list (List.rel_reverse hvs))

theorem simulates_filterItems {f g : Value → Eval Value}
    (h : ∀ v w, Value.Alike L v w → Simulates L (Value.Alike L) (f v) (g w)) :
    Simulates L (Value.Alike L) (filterItems f items) (filterItems g items') := by
  refine Simulates.bind (R := List.Forall₂ (Value.Alike L))
    (simulates_foldItems (fun s t v w hst hv => ?_) hitems .nil) fun vs ws hvs => ?_
  · apply (h v w hv).bind
    intro a b hab
    rw [hab.truthy]
    split
    · exact simulates_pure (.cons hv hst)
    · exact simulates_pure hst
  · exact simulates_pure (.list (List.rel_reverse hvs))

theorem simulates_reduceItems {f g : Value → Value → Eval Value}
    (h : ∀ a b v w, Value.Alike L a b → Value.Alike L v w →
      Simulates L (Value.Alike L) (f a v) (g b w)) :
    Simulates L (Option.Rel (Value.Alike L)) (reduceItems f items) (reduceItems g items') := by
  refine simulates_foldItems (fun s t v w hst hv => ?_) hitems .none
  cases hst with
  | none => exact simulates_pure (.some hv)
  | some hab => exact (h _ _ v w hab hv).bind fun a b hab => simulates_pure (.some hab)

end Loops

/-! ## Calls -/

theorem simulates_checkArity {f g : Callable} (h : Callable.Alike L f g) {l l' : Int}
    (hl : L.line l l') (got : Nat) :
    Simulates L (fun _ _ => True) (checkArity f l got) (checkArity g l' got) := by
  unfold checkArity
  rw [h.arity]
  split
  · split
    · exact simulates_pure trivial
    · exact simulates_fail _ hl
  · exact simulates_pure trivial

theorem simulates_printLine (muted : Bool) {vs ws : List Value}
    (h : List.Forall₂ (Value.Alike L) vs ws) :
    Simulates L (Value.Alike L) (printLine muted vs) (printLine muted ws) := by
  have htexts : vs.map Value.text = ws.map Value.text := by
    induction h with
    | nil => rfl
    | cons hv _ ih => rw [List.map_cons, List.map_cons, hv.text, ih]
  unfold printLine
  rw [htexts]
  dsimp only
  split
  · exact (simulates_print _).bind fun _ _ _ => simulates_pure (.string _)
  · exact simulates_pure (.string _)

theorem simulates_collectionArgs (which : Builtin) {l l' : Int} (hl : L.line l l')
    {vs ws : List Value} (h : List.Forall₂ (Value.Alike L) vs ws) :
    Simulates L (fun p q => Callable.Alike L p.1 q.1 ∧ Items.Alike L p.2 q.2)
      (collectionArgs which l vs) (collectionArgs which l' ws) := by
  have hlength := h.length_eq
  match h with
  | .nil => exact simulates_fail _ hl
  | .cons _ .nil => exact simulates_fail _ hl
  | .cons _ (.cons _ (.cons _ _)) =>
    simp only [collectionArgs, hlength]
    exact simulates_fail _ hl
  | .cons hf (.cons hv .nil) =>
    simp only [collectionArgs]
    rw [hf.typeName, hv.typeName]
    have hcallable := hf.callable?
    have hitems := hv.items?
    generalize callable? _ = a at hcallable ⊢
    generalize callable? _ = b at hcallable ⊢
    cases hcallable with
    | none => exact simulates_fail _ hl
    | some hc =>
      dsimp only
      generalize Value.items? _ = c at hitems ⊢
      generalize Value.items? _ = d at hitems ⊢
      cases hitems with
      | none => exact simulates_fail _ hl
      | some hi => exact simulates_pure ⟨hc, hi⟩

end Eval

open Eval

/-! ## Expressions -/

/-- Units of fuel that stand against one. -/
def Likeness.cost (L : Likeness) : Nat := if L.wraps then 2 else 1

theorem Likeness.cost_pos (L : Likeness) : 0 < L.cost := by
  unfold cost
  split <;> decide

theorem Likeness.cost_of_wraps {L : Likeness} (h : L.wraps = true) : L.cost = 2 := by
  rw [cost, if_pos h]

/-- Alike expressions and alike calls, with some fuel on the left and enough on the right. -/
structure SimulatesAt (L : Likeness) (fuel : Nat) : Prop where
  eval : ∀ {k : Nat} {e e' : Expr}, L.cost * fuel ≤ k → Expr.Alike L e e' →
    Simulates L (Value.Alike L) (eval fuel e) (eval k e')
  invoke : ∀ {k : Nat} {f f' : Callable} {l l' : Int} {vs ws : List Value}, L.cost * fuel ≤ k →
    Callable.Alike L f f' → L.line l l' → List.Forall₂ (Value.Alike L) vs ws →
    Simulates L (Value.Alike L) (invoke fuel f l vs) (invoke k f' l' ws)

theorem evalBlock_singleton (ev : Expr → Eval Value) (last : Value) (e : Expr) :
    evalBlock ev last [e] = ev e := bind_pure (ev e)

section Step

variable {L : Likeness} {fuel k : Nat} (ih : SimulatesAt L fuel)
  (hk : L.cost * fuel + L.cost ≤ k + 1)
include ih hk

theorem simulates_node {e e' : Expr} (h : Expr.Alike L e e') :
    Simulates L (Value.Alike L) (eval fuel e) (eval k e') := by
  have hpos := L.cost_pos
  exact ih.eval (by omega) h

theorem simulates_operand {e e' : Expr} (h : Expr.AlikeOperand L e e') :
    Simulates L (Value.Alike L) (eval fuel e) (eval k e') := by
  cases h with
  | same h => exact simulates_node ih hk h
  | grouped hw h =>
    rw [L.cost_of_wraps hw] at hk
    obtain ⟨j, rfl⟩ : ∃ j, k = j + 1 := ⟨k - 1, by omega⟩
    have hj : L.cost * fuel ≤ j := by rw [L.cost_of_wraps hw]; omega
    rw [eval]
    exact ih.eval hj h

/-- A branch or the body of a loop, in its frame. -/
theorem simulates_branch {e e' : Expr} (h : Expr.AlikeBranch L e e') {f g : Frame}
    (hf : Frame.Alike L f g) :
    Simulates L (Value.Alike L) (inFrame f (eval fuel e)) (inFrame g (eval k e')) := by
  cases h with
  | same h =>
    exact (simulates_node ih hk h).inFrame (keepsOuter_eval _ _) (keepsOuter_eval _ _) hf
  | braced hw h =>
    rw [L.cost_of_wraps hw] at hk
    obtain ⟨j, rfl⟩ : ∃ j, k = j + 1 := ⟨k - 1, by omega⟩
    have hj : L.cost * fuel ≤ j := by rw [L.cost_of_wraps hw]; omega
    rw [eval, evalBlock_singleton]
    · exact (ih.eval hj h).inFrames (keepsOuter_eval _ _) (keepsOuter_eval _ _) hf (L.not_framed hw)
    · simp

theorem simulates_evalBlock {es es' : List Expr} (h : List.Forall₂ (Expr.Alike L) es es')
    {v w : Value} (hv : Value.Alike L v w) :
    Simulates L (Value.Alike L) (evalBlock (eval fuel) v es) (evalBlock (eval k) w es') := by
  induction h generalizing v w with
  | nil => exact simulates_pure hv
  | cons he _ ihs => exact (simulates_node ih hk he).bind fun v w hv => ihs hv

theorem simulates_evalAll {es es' : List Expr} (h : List.Forall₂ (Expr.Alike L) es es') :
    Simulates L (List.Forall₂ (Value.Alike L)) (evalAll (eval fuel) es) (evalAll (eval k) es') := by
  induction h with
  | nil => exact simulates_pure .nil
  | cons he _ ihs =>
    exact (simulates_node ih hk he).bind fun v w hv =>
      ihs.bind fun vs ws hvs => simulates_pure (.cons hv hvs)

theorem simulates_evalBranches {b b' : Branches} (h : Branches.Alike L b b') :
    Simulates L (Value.Alike L) (evalBranches (eval fuel) b) (evalBranches (eval k) b') :=
  match h with
  | .done => simulates_pure .null
  | .otherwise h => simulates_branch ih hk h .nil
  | .elseIf ht hy hn => by
    apply (simulates_operand ih hk ht).bind
    intro v w hv
    rw [hv.truthy]
    split
    · exact simulates_branch ih hk hy .nil
    · exact simulates_evalBranches hn

theorem simulates_eval_succ {e e' : Expr} (h : Expr.Alike L e e') :
    Simulates L (Value.Alike L) (eval (fuel + 1) e) (eval (k + 1) e') := by
  cases h with
  | literal value => exact simulates_pure (Value.alike_literal value)
  | var hl => exact simulates_lookup _ hl
  | grouping h => exact simulates_node ih hk h
  | unary hl h =>
    exact (simulates_operand ih hk h).bind fun v w hv => simulates_unaryOp _ hl hv
  | binary hl ha hb =>
    exact (simulates_operand ih hk ha).bind fun a a' haa =>
      (simulates_operand ih hk hb).bind fun b b' hbb => simulates_binaryOp _ _ hl haa hbb
  | assign _ h =>
    exact (simulates_node ih hk h).bind fun v w hv =>
      (simulates_define _ hv).bind fun _ _ _ => simulates_pure hv
  | block _ h =>
    cases h with
    | nil => exact simulates_pure .null
    | cons he hes =>
      exact (simulates_evalBlock ih hk (.cons he hes) .null).inFrame
        (keepsOuter_evalBlock (keepsOuter_eval _) _ _)
        (keepsOuter_evalBlock (keepsOuter_eval _) _ _) .nil
  | cond _ ht hy hn =>
    apply (simulates_operand ih hk ht).bind
    intro v w hv
    rw [hv.truthy]
    split
    · exact simulates_branch ih hk hy .nil
    · exact simulates_evalBranches ih hk hn
  | each hl hi hb =>
    apply (simulates_operand ih hk hi).bind
    intro v w hv
    have hitems := hv.items?
    rw [hv.typeName]
    generalize v.items? = a at hitems ⊢
    generalize w.items? = b at hitems ⊢
    cases hitems with
    | none => exact simulates_fail _ hl
    | some hitems =>
      apply simulates_mapItems hitems
      intro v w hv
      exact simulates_branch ih hk hb (.cons ⟨rfl, hv⟩ .nil)
  | function _ h => exact simulates_newFunction _ h
  | call hl hc ha =>
    apply (simulates_operand ih hk hc).bind
    intro v w hv
    have hcallable := hv.callable?
    rw [hv.text]
    generalize callable? v = a at hcallable ⊢
    generalize callable? w = b at hcallable ⊢
    cases hcallable with
    | none => exact simulates_fail _ hl
    | some hf =>
      have hpos := L.cost_pos
      rw [ha.length_eq]
      exact (simulates_checkArity hf hl _).bind fun _ _ _ =>
        (simulates_evalAll ih hk ha).bind fun vs ws hvs => ih.invoke (by omega) hf hl hvs

theorem simulates_invoke_succ {f f' : Callable} {l l' : Int} {vs ws : List Value}
    (hf : Callable.Alike L f f') (hl : L.line l l') (hvs : List.Forall₂ (Value.Alike L) vs ws) :
    Simulates L (Value.Alike L) (invoke (fuel + 1) f l vs) (invoke (k + 1) f' l' ws) := by
  have hcall : ∀ {g g' : Callable}, Callable.Alike L g g' → ∀ n {us us' : List Value},
      List.Forall₂ (Value.Alike L) us us' →
      Simulates L (Value.Alike L) (do checkArity g l n; invoke fuel g l us)
        (do checkArity g' l' n; invoke k g' l' us') := by
    intro g g' hg n us us' hus
    have hpos := L.cost_pos
    exact (simulates_checkArity hg hl n).bind fun _ _ _ => ih.invoke (by omega) hg hl hus
  cases hf with
  | function h =>
    exact (simulates_node ih hk h).inFrame (keepsOuter_eval _ _) (keepsOuter_eval _ _)
      (Frame.alike_ofParams _ hvs)
  | builtin which muted =>
    cases which with
    | print => exact simulates_printLine muted hvs
    | map =>
      apply (simulates_collectionArgs .map hl hvs).bind
      intro p q hpq
      exact simulates_mapItems hpq.2 fun v w hv => hcall hpq.1 1 (.cons hv .nil)
    | filter =>
      apply (simulates_collectionArgs .filter hl hvs).bind
      intro p q hpq
      exact simulates_filterItems hpq.2 fun v w hv => hcall hpq.1 1 (.cons hv .nil)
    | reduce =>
      apply (simulates_collectionArgs .reduce hl hvs).bind
      intro p q hpq
      apply (simulates_reduceItems hpq.2 fun a b v w ha hv =>
        hcall hpq.1 2 (.cons ha (.cons hv .nil))).bind
      intro a b hab
      cases hab with
      | none => exact simulates_fail _ hl
      | some hv => exact simulates_pure hv

end Step

theorem simulatesAt (L : Likeness) (fuel : Nat) : SimulatesAt L fuel := by
  induction fuel with
  | zero => exact ⟨fun _ _ => simulates_outOfFuel _, fun _ _ _ _ => simulates_outOfFuel _⟩
  | succ fuel ih =>
    have hpos := L.cost_pos
    refine ⟨fun {k} _ _ hk h => ?_, fun {k} _ _ _ _ _ _ hk hf hl hvs => ?_⟩
    · rw [Nat.mul_succ] at hk
      obtain ⟨j, rfl⟩ : ∃ j, k = j + 1 := ⟨k - 1, by omega⟩
      exact simulates_eval_succ ih hk h
    · rw [Nat.mul_succ] at hk
      obtain ⟨j, rfl⟩ : ∃ j, k = j + 1 := ⟨k - 1, by omega⟩
      exact simulates_invoke_succ ih hk hf hl hvs

/-- Alike expressions evaluate alike. -/
theorem eval_simulates {L : Likeness} {fuel k : Nat} (hk : L.cost * fuel ≤ k) {e e' : Expr}
    (h : Expr.Alike L e e') : Simulates L (Value.Alike L) (eval fuel e) (eval k e') :=
  (simulatesAt L fuel).eval hk h

end ExprLang
