import ExprLang.Eval
import Mathlib.Data.List.Forall2

/-!
# Expressions and values that are alike

Two expressions are alike if they differ only in their lines, in groupings around operands and in
blocks around branches. Two values are alike if they differ only in the identities and the bodies of
functions, the bodies being alike again. No operator and no text can tell alike values apart.
-/

namespace ExprLang

/-- What may differ between two programs: the lines, the identities of functions, and whether
groupings and blocks may be added. An identity stands for one other at most. If no blocks are added,
frames can be asked to hold the same definitions one by one, and not only to show the same names. -/
structure Likeness where
  line : Int → Int → Prop
  same : Nat → Nat → Prop
  wraps : Bool
  framed : Bool
  same_iff : ∀ {i i' j j' : Nat}, same i i' → same j j' → (i = j ↔ i' = j')
  not_framed : wraps = true → framed = false

/-! ## Expressions -/

mutual

inductive Expr.Alike (L : Likeness) : Expr → Expr → Prop
  | literal (value : Literal) : Expr.Alike L (.literal value) (.literal value)
  | var {name : Bytes} {l l' : Int} (hl : L.line l l') :
    Expr.Alike L (.variable name l) (.variable name l')
  | grouping {e e' : Expr} (h : Expr.Alike L e e') : Expr.Alike L (.grouping e) (.grouping e')
  | unary {op : UnaryOp} {spelling : Bytes} {l l' : Int} {e e' : Expr} (hl : L.line l l')
    (h : Expr.AlikeOperand L e e') :
    Expr.Alike L (.unary op spelling l e) (.unary op spelling l' e')
  | binary {a a' b b' : Expr} {op : BinaryOp} {spelling : Bytes} {l l' : Int} (hl : L.line l l')
    (ha : Expr.AlikeOperand L a a') (hb : Expr.AlikeOperand L b b') :
    Expr.Alike L (.binary a op spelling l b) (.binary a' op spelling l' b')
  | assign {name : Bytes} {l l' : Int} {e e' : Expr} (hl : L.line l l') (h : Expr.Alike L e e') :
    Expr.Alike L (.assign name l e) (.assign name l' e')
  | block {l l' : Int} {es es' : List Expr} (hl : L.line l l')
    (h : List.Forall₂ (Expr.Alike L) es es') : Expr.Alike L (.block l es) (.block l' es')
  | cond {l l' : Int} {test test' yes yes' : Expr} {no no' : Branches} (hl : L.line l l')
    (ht : Expr.AlikeOperand L test test') (hy : Expr.AlikeBranch L yes yes')
    (hn : Branches.Alike L no no') :
    Expr.Alike L (.cond l test yes no) (.cond l' test' yes' no')
  | each {name : Bytes} {l l' : Int} {items items' body body' : Expr} (hl : L.line l l')
    (hi : Expr.AlikeOperand L items items') (hb : Expr.AlikeBranch L body body') :
    Expr.Alike L (.each l name items body) (.each l' name items' body')
  | function {params : List Bytes} {l l' : Int} {body body' : Expr} (hl : L.line l l')
    (h : Expr.Alike L body body') :
    Expr.Alike L (.function l params body) (.function l' params body')
  | call {callee callee' : Expr} {l l' : Int} {args args' : List Expr} (hl : L.line l l')
    (hc : Expr.AlikeOperand L callee callee') (ha : List.Forall₂ (Expr.Alike L) args args') :
    Expr.Alike L (.call callee l args) (.call callee' l' args')

/-- Alike, or in a grouping on the right. -/
inductive Expr.AlikeOperand (L : Likeness) : Expr → Expr → Prop
  | same {e e' : Expr} (h : Expr.Alike L e e') : Expr.AlikeOperand L e e'
  | grouped {e e' : Expr} (hw : L.wraps = true) (h : Expr.Alike L e e') :
    Expr.AlikeOperand L e (.grouping e')

/-- Alike, or in a block on the right. -/
inductive Expr.AlikeBranch (L : Likeness) : Expr → Expr → Prop
  | same {e e' : Expr} (h : Expr.Alike L e e') : Expr.AlikeBranch L e e'
  | braced {e e' : Expr} {l : Int} (hw : L.wraps = true) (h : Expr.Alike L e e') :
    Expr.AlikeBranch L e (.block l [e'])

inductive Branches.Alike (L : Likeness) : Branches → Branches → Prop
  | done : Branches.Alike L .done .done
  | otherwise {body body' : Expr} (h : Expr.AlikeBranch L body body') :
    Branches.Alike L (.otherwise body) (.otherwise body')
  | elseIf {test test' yes yes' : Expr} {no no' : Branches} (ht : Expr.AlikeOperand L test test')
    (hy : Expr.AlikeBranch L yes yes') (hn : Branches.Alike L no no') :
    Branches.Alike L (.elseIf test yes no) (.elseIf test' yes' no')

end

/-! ## Values -/

inductive Value.Alike (L : Likeness) : Value → Value → Prop
  | int (n : Int64) : Value.Alike L (.int n) (.int n)
  | float (x : Float) : Value.Alike L (.float x) (.float x)
  | string (s : Bytes) : Value.Alike L (.string s) (.string s)
  | bool (b : Bool) : Value.Alike L (.bool b) (.bool b)
  | null : Value.Alike L .null .null
  | list {vs ws : List Value} (h : List.Forall₂ (Value.Alike L) vs ws) :
    Value.Alike L (.list vs) (.list ws)
  | range (start stop : Int64) : Value.Alike L (.range start stop) (.range start stop)
  | function {i i' : Nat} {params : List Bytes} {body body' : Expr} (hi : L.same i i')
    (h : Expr.Alike L body body') :
    Value.Alike L (.function i params body) (.function i' params body')
  | builtin (which : Builtin) (root : Root) :
    Value.Alike L (.builtin which root) (.builtin which root)
  | absent : Value.Alike L .absent .absent
  | foreign (text : Bytes) : Value.Alike L (.foreign text) (.foreign text)

variable {L : Likeness}

theorem Value.alike_literal (l : Literal) : Value.Alike L l.value l.value := by
  cases l <;> constructor

namespace Value.Alike

theorem typeName {v w : Value} (h : Value.Alike L v w) : v.typeName = w.typeName := by
  cases h <;> rfl

theorem truthy {v w : Value} (h : Value.Alike L v w) : v.truthy = w.truthy := by
  cases h with
  | list h => cases h <;> rfl
  | _ => rfl

mutual

theorem text {v w : Value} : Value.Alike L v w → v.text = w.text
  | .list h => by rw [Value.text, Value.text, itemTexts h]
  | .int _ | .float _ | .string _ | .bool _ | .null | .range .. | .function .. | .builtin ..
  | .absent | .foreign _ => rfl

theorem itemTexts {vs ws : List Value} :
    List.Forall₂ (Value.Alike L) vs ws → Value.itemTexts vs = Value.itemTexts ws
  | .nil => rfl
  | .cons h hs => by
    have hv := text h
    have hvs := itemTexts hs
    cases h <;> simp only [Value.itemTexts, hv, hvs]

end

theorem equals_function {i i' j j' : Nat} (hi : L.same i i') (hj : L.same j j') :
    (i == j) = (i' == j') := by
  rw [Bool.eq_iff_iff, beq_iff_eq, beq_iff_eq]
  exact L.same_iff hi hj

mutual

theorem equals {v v' w w' : Value} : Value.Alike L v v' → Value.Alike L w w' →
    v.equals w = v'.equals w'
  | .list h, hw => by
    cases hw with
    | list h' => exact equalsAll h h'
    | _ => rfl
  | .function hi _, hw => by
    cases hw with
    | function hj _ => exact equals_function hi hj
    | _ => rfl
  | .int _, hw | .float _, hw | .string _, hw | .bool _, hw | .null, hw | .range .., hw
  | .builtin .., hw | .absent, hw | .foreign _, hw => by cases hw <;> rfl

theorem equalsAll {vs vs' ws ws' : List Value} : List.Forall₂ (Value.Alike L) vs vs' →
    List.Forall₂ (Value.Alike L) ws ws' → Value.equalsAll vs ws = Value.equalsAll vs' ws'
  | .nil, hw => by cases hw <;> rfl
  | .cons h hs, hw => by
    cases hw with
    | nil => rfl
    | cons h' hs' => rw [Value.equalsAll, Value.equalsAll, equals h h', equalsAll hs hs']

end

end Value.Alike

/-! ## Operators -/

/-- Answers of an operator: alike values or the same fault. -/
inductive AlikeAnswer (L : Likeness) :
    Except OperatorFault Value → Except OperatorFault Value → Prop
  | ok {v w : Value} (h : Value.Alike L v w) : AlikeAnswer L (.ok v) (.ok w)
  | error (fault : OperatorFault) : AlikeAnswer L (.error fault) (.error fault)

namespace Value

theorem alikeAnswer_checked (r : Option Int64) : AlikeAnswer L (checked r) (checked r) := by
  cases r with
  | none => exact .error _
  | some n => exact .ok (.int n)

theorem alikeAnswer_divide (x y : Float) : AlikeAnswer L (divide x y) (divide x y) := by
  unfold divide
  split
  · exact .error _
  · exact .ok (.float _)

theorem alikeAnswer_integerOp (op : BinaryOp) (x y : Int64) :
    AlikeAnswer L (integerOp op x y) (integerOp op x y) := by
  unfold integerOp
  split
  · exact alikeAnswer_checked _
  · exact alikeAnswer_checked _
  · exact alikeAnswer_checked _
  · exact alikeAnswer_divide _ _
  · exact .ok (.bool _)
  · exact .ok (.bool _)
  · exact .ok (.bool _)
  · exact .ok (.bool _)
  · exact .error _

theorem alikeAnswer_floatOp (op : BinaryOp) (x y : Float) :
    AlikeAnswer L (floatOp op x y) (floatOp op x y) := by
  unfold floatOp
  split
  · exact .ok (.float _)
  · exact .ok (.float _)
  · exact .ok (.float _)
  · exact alikeAnswer_divide _ _
  · exact .ok (.bool _)
  · exact .ok (.bool _)
  · exact .ok (.bool _)
  · exact .ok (.bool _)
  · exact .error _

theorem alikeAnswer_stringOp (op : BinaryOp) (s t : Bytes) :
    AlikeAnswer L (stringOp op s t) (stringOp op s t) := by
  unfold stringOp
  split
  · exact .ok (.string _)
  · exact .ok (.bool _)
  · exact .ok (.bool _)
  · exact .ok (.bool _)
  · exact .ok (.bool _)
  · exact .error _

theorem Alike.negate {v w : Value} (h : Value.Alike L v w) : AlikeAnswer L v.negate w.negate := by
  cases h with
  | int n => exact alikeAnswer_checked _
  | float x => exact .ok (.float _)
  | _ => exact .error _

theorem Alike.operate (op : BinaryOp) {v v' w w' : Value} (hv : Value.Alike L v v')
    (hw : Value.Alike L w w') : AlikeAnswer L (v.operate op w) (v'.operate op w') := by
  cases hv with
  | int x =>
    cases hw with
    | int y => exact alikeAnswer_integerOp op x y
    | float y => exact alikeAnswer_floatOp op _ y
    | _ => exact .error _
  | float x =>
    cases hw with
    | int y => exact alikeAnswer_floatOp op x _
    | float y => exact alikeAnswer_floatOp op x y
    | _ => exact .error _
  | string s =>
    cases hw with
    | string t => exact alikeAnswer_stringOp op s t
    | _ => exact .error _
  | list h =>
    cases hw with
    | list h' =>
      simp only [Value.operate]
      split
      · exact .ok (.list (List.rel_append h h'))
      · exact .error _
    | _ => exact .error _
  | _ => cases hw <;> exact .error _

end Value

/-! ## Items and callables -/

inductive Items.Alike (L : Likeness) : Items → Items → Prop
  | values {vs ws : List Value} (h : List.Forall₂ (Value.Alike L) vs ws) :
    Items.Alike L (.values vs) (.values ws)
  | span (start : Int64) (count : Nat) : Items.Alike L (.span start count) (.span start count)

theorem Value.Alike.items? {v w : Value} (h : Value.Alike L v w) :
    Option.Rel (Items.Alike L) v.items? w.items? := by
  cases h with
  | list h => exact .some (.values h)
  | range start stop => exact .some (.span _ _)
  | string s =>
    refine .some (.values ?_)
    rw [List.forall₂_map_left_iff, List.forall₂_map_right_iff, List.forall₂_same]
    exact fun c _ => .string _
  | _ => exact .none

inductive Callable.Alike (L : Likeness) : Eval.Callable → Eval.Callable → Prop
  | function {params : List Bytes} {body body' : Expr} (h : Expr.Alike L body body') :
    Callable.Alike L (.function params body) (.function params body')
  | builtin (which : Builtin) (muted : Bool) :
    Callable.Alike L (.builtin which muted) (.builtin which muted)

theorem Callable.Alike.arity {f g : Eval.Callable} (h : Callable.Alike L f g) :
    f.arity = g.arity := by
  cases h <;> rfl

theorem Value.Alike.callable? {v w : Value} (h : Value.Alike L v w) :
    Option.Rel (Callable.Alike L) (Eval.callable? v) (Eval.callable? w) := by
  cases h with
  | function _ h => exact .some (.function h)
  | builtin which root => exact .some (.builtin which root.muted)
  | _ => exact .none

/-! ## Scopes -/

/-- The same names, bound to alike values. -/
def Frame.Alike (L : Likeness) (f g : Frame) : Prop :=
  List.Forall₂ (fun p q => p.1 = q.1 ∧ Value.Alike L p.2 q.2) f g

theorem Frame.Alike.lookup {f g : Frame} (h : Frame.Alike L f g) (name : Bytes) :
    Option.Rel (Value.Alike L) (List.lookup name f) (List.lookup name g) := by
  induction h with
  | nil => exact .none
  | @cons p q f g hpq _ ih =>
    obtain ⟨key, v⟩ := p
    obtain ⟨key', w⟩ := q
    obtain ⟨hkey, hv⟩ := hpq
    dsimp only at hkey
    subst hkey
    simp only [List.lookup_cons]
    split
    · exact .some hv
    · exact ih

theorem Frame.alike_ofParams (params : List Bytes) {vs ws : List Value}
    (h : List.Forall₂ (Value.Alike L) vs ws) :
    Frame.Alike L (.ofParams params vs) (.ofParams params ws) := by
  refine List.rel_reverse ?_
  induction h generalizing params with
  | nil =>
    rw [List.zip_nil_right]
    exact .nil
  | cons hv _ ih =>
    cases params with
    | nil => exact .nil
    | cons name names => exact .cons ⟨rfl, hv⟩ (ih names)

/-- Every name is bound to alike values or to none. -/
structure Scope.Alike (L : Likeness) (s t : Scope) : Prop where
  lookup : ∀ name, Option.Rel (Value.Alike L) (s.lookup name) (t.lookup name)
  frames : L.framed = true → List.Forall₂ (Frame.Alike L) s.frames t.frames

namespace Scope

theorem lookup_push (s : Scope) (frame : Frame) (name : Bytes) :
    (s.push frame).lookup name = (List.lookup name frame).or (s.lookup name) := by
  simp only [lookup, push, frames, List.findSome?_cons]
  cases List.lookup name frame <;> rfl

theorem lookup_define (s : Scope) (name key : Bytes) (v : Value) :
    (s.define name v).lookup key = if key == name then some v else s.lookup key := by
  simp only [lookup, define, Frame.define, frames, List.findSome?_cons, List.lookup_cons]
  cases key == name <;> rfl

theorem Alike.push {s t : Scope} (h : s.Alike L t) {f g : Frame} (hf : Frame.Alike L f g) :
    (s.push f).Alike L (t.push g) := by
  refine ⟨fun name => ?_, fun hframed => .cons hf (h.frames hframed)⟩
  rw [lookup_push, lookup_push]
  have hl := hf.lookup name
  generalize List.lookup name f = a at hl ⊢
  generalize List.lookup name g = b at hl ⊢
  cases hl with
  | some hv => exact .some hv
  | none => exact h.lookup name

theorem Alike.push_nil {s t : Scope} (h : s.Alike L t) (hL : L.framed = false) :
    s.Alike L (t.push []) := by
  refine ⟨fun name => ?_, fun hframed => by rw [hL] at hframed; cases hframed⟩
  rw [lookup_push]
  exact h.lookup name

theorem Alike.define {s t : Scope} (h : s.Alike L t) (name : Bytes) {v w : Value}
    (hv : Value.Alike L v w) : (s.define name v).Alike L (t.define name w) := by
  constructor
  · intro key
    rw [lookup_define, lookup_define]
    split
    · exact .some hv
    · exact h.lookup key
  · intro hframed
    obtain ⟨htop, houter⟩ := List.forall₂_cons.mp (h.frames hframed)
    exact .cons (.cons ⟨rfl, hv⟩ htop) houter

end Scope

/-- Alike scopes, the same lines printed, and the next identities matching. -/
structure Machine.Alike (L : Likeness) (m m' : Machine) : Prop where
  scope : m.scope.Alike L m'.scope
  printed : m.printed = m'.printed
  fresh : ∀ n, L.same (m.fresh + n) (m'.fresh + n)

end ExprLang
