import ExprLang.Proofs.Evaluation.Frames
import ExprLang.Proofs.Parsing.Lines
import ExprLang.Proofs.Printing.Normal

/-!
# Evaluation carries lines along

Lines play no part in an evaluation: they come from the program and from the functions in the scope,
and go into new functions and errors. So renumbering all of them renumbers the result and changes
nothing else. Nor does it matter what was printed before.
-/

namespace ExprLang

open ExprLang.Eval (Callable callable?)

/-! ## Other lines -/

namespace Expr

variable {f g h : Int → Int}

theorem mapLines_comp {es : List Expr} (hes : ∀ e ∈ es, (e.mapLine f).mapLine g = e.mapLine h) :
    mapLines g (mapLines f es) = mapLines h es := by
  rw [mapLines_eq, mapLines_eq, mapLines_eq, List.map_map]
  exact List.map_congr_left hes

/-- Renumbering twice is renumbering once. -/
theorem mapLine_comp_compositional (hfg : ∀ l, g (f l) = h l) :
    Compositional (fun e => (e.mapLine f).mapLine g = e.mapLine h)
      (fun b => (b.mapLine f).mapLine g = b.mapLine h) where
  literal _ := rfl
  var _ _ := by simp only [mapLine, hfg]
  grouping _ hi := by simp only [mapLine, hi]
  unary _ _ _ _ he := by simp only [mapLine, hfg, he]
  binary _ _ _ _ _ hl hr := by simp only [mapLine, hfg, hl, hr]
  assign _ _ _ hv := by simp only [mapLine, hfg, hv]
  block _ _ hb := by simp only [mapLine, hfg, mapLines_comp hb]
  cond _ _ _ _ ht hy hn := by simp only [mapLine, hfg, ht, hy, hn]
  each _ _ _ _ hi hb := by simp only [mapLine, hfg, hi, hb]
  function _ _ _ hb := by simp only [mapLine, hfg, hb]
  call _ _ _ hc ha := by simp only [mapLine, hfg, hc, mapLines_comp ha]
  done := rfl
  otherwise _ hb := by simp only [Branches.mapLine, hb]
  elseIf _ _ _ ht hy hn := by simp only [Branches.mapLine, ht, hy, hn]

theorem mapLines_id {es : List Expr} (hes : ∀ e ∈ es, e.mapLine id = e) : mapLines id es = es := by
  rw [mapLines_eq, List.map_congr_left hes, List.map_id']

theorem mapLine_id_compositional :
    Compositional (fun e => e.mapLine id = e) (fun b => b.mapLine id = b) where
  literal _ := rfl
  var _ _ := rfl
  grouping _ hi := by simp only [mapLine, hi]
  unary _ _ _ _ he := by simp only [mapLine, id, he]
  binary _ _ _ _ _ hl hr := by simp only [mapLine, id, hl, hr]
  assign _ _ _ hv := by simp only [mapLine, id, hv]
  block _ _ hb := by simp only [mapLine, id, mapLines_id hb]
  cond _ _ _ _ ht hy hn := by simp only [mapLine, id, ht, hy, hn]
  each _ _ _ _ hi hb := by simp only [mapLine, id, hi, hb]
  function _ _ _ hb := by simp only [mapLine, id, hb]
  call _ _ _ hc ha := by simp only [mapLine, id, hc, mapLines_id ha]
  done := rfl
  otherwise _ hb := by simp only [Branches.mapLine, hb]
  elseIf _ _ _ ht hy hn := by simp only [Branches.mapLine, ht, hy, hn]

/-- A renumbering that is taken back. -/
theorem mapLine_cancel (hfg : ∀ l, g (f l) = l) (e : Expr) : (e.mapLine f).mapLine g = e :=
  ((mapLine_comp_compositional hfg).expr e).trans (mapLine_id_compositional.expr e)

end Expr

namespace Value

mutual

/-- Other lines for the functions in a value. -/
def mapLine (f : Int → Int) : Value → Value
  | .function i params body => .function i params (body.mapLine f)
  | .list items => .list (mapLines f items)
  | v => v

def mapLines (f : Int → Int) : List Value → List Value
  | [] => []
  | v :: vs => v.mapLine f :: mapLines f vs

end

variable (f : Int → Int)

theorem mapLines_eq (vs : List Value) : mapLines f vs = vs.map (mapLine f) := by
  induction vs with
  | nil => rfl
  | cons v vs ih => rw [mapLines, ih, List.map_cons]

theorem mapLine_list (items : List Value) :
    (Value.list items).mapLine f = .list (items.map (mapLine f)) := by
  rw [mapLine, mapLines_eq]

theorem mapLine_literal (l : Literal) : l.value.mapLine f = l.value := by cases l <;> rfl

mutual

theorem mapLine_cancel {f g : Int → Int} (hfg : ∀ l, g (f l) = l) :
    (v : Value) → (v.mapLine f).mapLine g = v
  | .function i params body => by rw [mapLine, mapLine, Expr.mapLine_cancel hfg]
  | .list items => by rw [mapLine, mapLine, mapLines_cancel hfg items]
  | .int _ | .float _ | .string _ | .bool _ | .null | .range .. | .builtin .. | .absent
  | .foreign _ => rfl

theorem mapLines_cancel {f g : Int → Int} (hfg : ∀ l, g (f l) = l) :
    (vs : List Value) → mapLines g (mapLines f vs) = vs
  | [] => rfl
  | v :: vs => by rw [mapLines, mapLines, mapLine_cancel hfg v, mapLines_cancel hfg vs]

end

/-! ## What does not depend on lines -/

theorem typeName_mapLine (v : Value) : (v.mapLine f).typeName = v.typeName := by cases v <;> rfl

theorem truthy_mapLine (v : Value) : (v.mapLine f).truthy = v.truthy := by
  cases v with
  | list items => cases items <;> rfl
  | _ => rfl

mutual

theorem text_mapLine : (v : Value) → (v.mapLine f).text = v.text
  | .list items => by rw [mapLine, text, text, itemTexts_mapLines items]
  | .int _ | .float _ | .string _ | .bool _ | .null | .range .. | .function .. | .builtin ..
  | .absent | .foreign _ => rfl

theorem itemTexts_mapLines : (vs : List Value) → itemTexts (mapLines f vs) = itemTexts vs
  | [] => rfl
  | v :: vs => by
    have hv := text_mapLine v
    have hvs := itemTexts_mapLines vs
    rw [mapLines]
    cases v <;> simp only [mapLine, itemTexts, hvs] <;> simp only [mapLine] at hv <;> rw [hv]

end

mutual

theorem equals_mapLine : (v w : Value) → (v.mapLine f).equals (w.mapLine f) = v.equals w
  | .list items, w => by
    cases w with
    | list others => exact equalsAll_mapLines items others
    | _ => rfl
  | .int _, w | .float _, w | .string _, w | .bool _, w | .null, w | .range .., w
  | .function .., w | .builtin .., w | .absent, w | .foreign _, w => by cases w <;> rfl

theorem equalsAll_mapLines : (vs ws : List Value) →
    equalsAll (mapLines f vs) (mapLines f ws) = equalsAll vs ws
  | [], [] | [], _ :: _ | _ :: _, [] => rfl
  | v :: vs, w :: ws => by
    rw [mapLines, mapLines, equalsAll, equalsAll, equals_mapLine v w, equalsAll_mapLines vs ws]

end

theorem map_text (vs : List Value) : (vs.map (mapLine f)).map text = vs.map text := by
  rw [List.map_map]
  exact List.map_congr_left fun v _ => text_mapLine f v

/-! ## Operators -/

theorem checked_mapLine (r : Option Int64) : (checked r).map (mapLine f) = checked r := by
  cases r <;> rfl

theorem divide_mapLine (x y : Float) : (divide x y).map (mapLine f) = divide x y := by
  unfold divide
  split <;> rfl

theorem integerOp_mapLine (op : BinaryOp) (x y : Int64) :
    (integerOp op x y).map (mapLine f) = integerOp op x y := by
  cases op with
  | plus | minus | star => exact checked_mapLine f _
  | slash => exact divide_mapLine f _ _
  | _ => rfl

theorem floatOp_mapLine (op : BinaryOp) (x y : Float) :
    (floatOp op x y).map (mapLine f) = floatOp op x y := by
  cases op with
  | slash => exact divide_mapLine f _ _
  | _ => rfl

theorem stringOp_mapLine (op : BinaryOp) (s t : Bytes) :
    (stringOp op s t).map (mapLine f) = stringOp op s t := by
  cases op <;> rfl

theorem negate_mapLine (v : Value) : (v.mapLine f).negate = v.negate.map (mapLine f) := by
  cases v with
  | int n => exact (checked_mapLine f _).symm
  | _ => rfl

theorem operate_mapLine (op : BinaryOp) (v w : Value) :
    (v.mapLine f).operate op (w.mapLine f) = (v.operate op w).map (mapLine f) := by
  cases v with
  | int x =>
    cases w with
    | int y => exact (integerOp_mapLine f op x y).symm
    | float y => exact (floatOp_mapLine f op _ y).symm
    | _ => rfl
  | float x =>
    cases w with
    | int y => exact (floatOp_mapLine f op x _).symm
    | float y => exact (floatOp_mapLine f op x y).symm
    | _ => rfl
  | string s =>
    cases w with
    | string t => exact (stringOp_mapLine f op s t).symm
    | _ => rfl
  | list items =>
    cases w with
    | list others =>
      simp only [mapLine_list, operate]
      split
      · simp only [Except.map, mapLine_list, List.map_append]
      · rfl
    | _ => rfl
  | _ => cases w <;> rfl

end Value

/-! ## Items and callables -/

def Items.mapLine (f : Int → Int) : Items → Items
  | .values vs => .values (vs.map (Value.mapLine f))
  | .span start count => .span start count

theorem Value.items?_mapLine (f : Int → Int) (v : Value) :
    (v.mapLine f).items? = v.items?.map (Items.mapLine f) := by
  cases v with
  | list items => rw [mapLine_list, items?, items?, Option.map_some, Items.mapLine]
  | string s =>
    simp only [mapLine, items?, Items.ofString, Option.map_some, Items.mapLine, List.map_map]
    rfl
  | _ => rfl

def Eval.Callable.mapLine (f : Int → Int) : Callable → Callable
  | .function params body => .function params (body.mapLine f)
  | .builtin which muted => .builtin which muted

theorem Eval.Callable.arity_mapLine (f : Int → Int) (g : Callable) :
    (g.mapLine f).arity = g.arity := by
  cases g <;> rfl

theorem Value.callable?_mapLine (f : Int → Int) (v : Value) :
    callable? (v.mapLine f) = (callable? v).map (Callable.mapLine f) := by
  cases v <;> rfl

/-! ## Machines -/

def Frame.mapLine (f : Int → Int) (frame : Frame) : Frame :=
  frame.map fun p => (p.1, p.2.mapLine f)

theorem Frame.lookup_mapLine (f : Int → Int) (frame : Frame) (name : Bytes) :
    List.lookup name (frame.mapLine f) = (List.lookup name frame).map (Value.mapLine f) := by
  induction frame with
  | nil => rfl
  | cons p frame ih =>
    obtain ⟨key, v⟩ := p
    simp only [mapLine, List.map_cons, List.lookup_cons]
    split
    · rfl
    · exact ih

theorem Frame.ofParams_mapLine (f : Int → Int) (params : List Bytes) (vs : List Value) :
    (Frame.ofParams params vs).mapLine f = .ofParams params (vs.map (Value.mapLine f)) := by
  simp only [ofParams, mapLine, List.map_reverse, List.zip_map_right]
  rfl

theorem Frame.mapLine_cancel {f g : Int → Int} (hfg : ∀ l, g (f l) = l) (frame : Frame) :
    (frame.mapLine f).mapLine g = frame := by
  have hp : ∀ p : Bytes × Value, (p.1, (p.2.mapLine f).mapLine g) = p := fun p => by
    rw [Value.mapLine_cancel hfg]
  simp only [mapLine, List.map_map, Function.comp_def, hp, List.map_id']

namespace Scope

def mapLine (f : Int → Int) (s : Scope) : Scope := ⟨s.top.mapLine f, s.outer.map (Frame.mapLine f)⟩

theorem lookup_mapLine (f : Int → Int) (s : Scope) (name : Bytes) :
    (s.mapLine f).lookup name = (s.lookup name).map (Value.mapLine f) := by
  have hframes : (s.mapLine f).frames = s.frames.map (Frame.mapLine f) := rfl
  rw [lookup, lookup, hframes]
  induction s.frames with
  | nil => rfl
  | cons frame frames ih =>
    rw [List.map_cons, List.findSome?_cons, List.findSome?_cons, Frame.lookup_mapLine]
    cases List.lookup name frame with
    | none => exact ih
    | some v => rfl

theorem pop_mapLine (f : Int → Int) (s : Scope) : s.pop.mapLine f = (s.mapLine f).pop := by
  obtain ⟨top, outer⟩ := s
  cases outer <;> rfl

theorem mapLine_cancel {f g : Int → Int} (hfg : ∀ l, g (f l) = l) (s : Scope) :
    (s.mapLine f).mapLine g = s := by
  simp only [mapLine, List.map_map, Function.comp_def, Frame.mapLine_cancel hfg, List.map_id']

end Scope

def RuntimeError.mapLine (f : Int → Int) (e : RuntimeError) : RuntimeError :=
  { e with line := f e.line }

def Halt.mapLine (f : Int → Int) : Halt → Halt
  | .error e => .error (e.mapLine f)
  | .outOfFuel => .outOfFuel

/-- The machine with other lines, and with `earlier` printed before. -/
def Machine.relabel (f : Int → Int) (earlier : List Bytes) (m : Machine) : Machine :=
  ⟨m.scope.mapLine f, m.printed ++ earlier, m.fresh⟩

theorem Machine.relabel_cancel {f g : Int → Int} (hfg : ∀ l, g (f l) = l) (earlier : List Bytes)
    (m : Machine) :
    (m.relabel f []).relabel g earlier = { m with printed := m.printed ++ earlier } := by
  simp only [relabel, Scope.mapLine_cancel hfg, List.append_nil]

namespace Eval

variable {f : Int → Int} {earlier : List Bytes} {α β γ δ σ τ : Type}

/-- The result of the same evaluation with other lines; `g` renumbers the value. -/
def relabelled (f : Int → Int) (earlier : List Bytes) (g : α → β) :
    EStateM.Result Halt Machine α → EStateM.Result Halt Machine β
  | .ok v m => .ok (g v) (m.relabel f earlier)
  | .error e m => .error (e.mapLine f) (m.relabel f earlier)

/-- `y` is `x` with other lines. -/
def Relabels (f : Int → Int) (earlier : List Bytes) (g : α → β) (x : Eval α) (y : Eval β) : Prop :=
  ∀ m : Machine, y (m.relabel f earlier) = relabelled f earlier g (x m)

/-! ## Effects -/

theorem relabels_pure {g : α → β} (v : α) : Relabels f earlier g (pure v) (pure (g v)) :=
  fun _ => rfl

theorem relabels_fail {g : α → β} (cause : RuntimeCause) (line : Int) :
    Relabels f earlier g (fail cause line) (fail cause (f line)) :=
  fun _ => rfl

theorem relabels_outOfFuel {g : α → β} :
    Relabels f earlier g (throw .outOfFuel) (throw .outOfFuel) :=
  fun _ => rfl

theorem Relabels.bind {g : α → β} {h : γ → δ} {x : Eval α} {y : Eval β} {k : α → Eval γ}
    {k' : β → Eval δ} (hx : Relabels f earlier g x y)
    (hk : ∀ v, Relabels f earlier h (k v) (k' (g v))) :
    Relabels f earlier h (x >>= k) (y >>= k') := by
  intro m
  have hm := hx m
  cases hr : x m with
  | ok v m' =>
    rw [hr] at hm
    rw [bind_ok hr, bind_ok hm]
    exact hk v m'
  | error e m' =>
    rw [hr] at hm
    rw [bind_error hr, bind_error hm]
    rfl

theorem relabels_lookup (name : Bytes) (line : Int) :
    Relabels f earlier (Value.mapLine f) (lookup name line) (lookup name (f line)) := by
  intro m
  have hl : (m.relabel f earlier).scope.lookup name = _ := m.scope.lookup_mapLine f name
  cases hv : m.scope.lookup name with
  | some v =>
    rw [hv] at hl
    rw [lookup_some hv, lookup_some hl]
    rfl
  | none =>
    rw [hv] at hl
    rw [lookup_none hv, lookup_none hl]
    rfl

theorem relabels_define (name : Bytes) (v : Value) :
    Relabels f earlier id (define name v) (define name (v.mapLine f)) :=
  fun _ => rfl

theorem relabels_print (line : Bytes) : Relabels f earlier id (print line) (print line) :=
  fun _ => rfl

theorem relabels_newFunction (params : List Bytes) (body : Expr) :
    Relabels f earlier (Value.mapLine f) (newFunction params body)
      (newFunction params (body.mapLine f)) :=
  fun _ => rfl

theorem Relabels.inFrame {g : α → β} {x : Eval α} {y : Eval β} (h : Relabels f earlier g x y)
    (frame : Frame) :
    Relabels f earlier g (inFrame frame x) (inFrame (frame.mapLine f) y) := by
  intro m
  have hm : y { m.relabel f earlier with
      scope := (m.relabel f earlier).scope.push (frame.mapLine f) } = _ :=
    h { m with scope := m.scope.push frame }
  simp only [Eval.inFrame, hm]
  cases x { m with scope := m.scope.push frame } <;>
    simp only [relabelled, Machine.relabel, Scope.pop_mapLine]

/-! ## Operators -/

theorem relabels_ofOperator (cause : RuntimeCause) (line : Int)
    (r : Except OperatorFault Value) :
    Relabels f earlier (Value.mapLine f) (ofOperator cause line r)
      (ofOperator cause (f line) (r.map (Value.mapLine f))) := by
  cases r with
  | ok v => exact relabels_pure v
  | error fault => cases fault <;> exact relabels_fail _ line

theorem relabels_unaryOp (op : UnaryOp) (line : Int) (v : Value) :
    Relabels f earlier (Value.mapLine f) (unaryOp op line v)
      (unaryOp op (f line) (v.mapLine f)) := by
  cases op with
  | minus =>
    simp only [unaryOp, Value.negate_mapLine, Value.typeName_mapLine]
    exact relabels_ofOperator _ line _
  | not =>
    simp only [unaryOp, Value.truthy_mapLine]
    exact relabels_pure _

theorem relabels_rangeOf (line : Int) (v w : Value) :
    Relabels f earlier (Value.mapLine f) (rangeOf line v w)
      (rangeOf (f line) (v.mapLine f) (w.mapLine f)) := by
  cases v with
  | int x =>
    cases w with
    | int y => exact relabels_pure (Value.range x y)
    | _ => exact relabels_fail _ line
  | _ => cases w <;> exact relabels_fail _ line

theorem relabels_binaryOp (op : BinaryOp) (spelling : Bytes) (line : Int) (v w : Value) :
    Relabels f earlier (Value.mapLine f) (binaryOp op spelling line v w)
      (binaryOp op spelling (f line) (v.mapLine f) (w.mapLine f)) := by
  match op with
  | .equal | .notEqual =>
    simp only [binaryOp, Value.equals_mapLine]
    exact relabels_pure _
  | .and | .or =>
    simp only [binaryOp, Value.truthy_mapLine, ← apply_ite (Value.mapLine f)]
    exact relabels_pure _
  | .to => exact relabels_rangeOf line v w
  | .greater | .less | .greaterEqual | .lessEqual | .plus | .minus | .slash | .star =>
    simp only [binaryOp, Value.operate_mapLine, Value.typeName_mapLine]
    exact relabels_ofOperator _ line _

/-! ## Loops -/

section Folds

variable {g : σ → τ} {step : σ → Value → Eval σ} {step' : τ → Value → Eval τ}
  (hstep : ∀ s v, Relabels f earlier g (step s v) (step' (g s) (v.mapLine f)))
include hstep

theorem relabels_foldValues (vs : List Value) (s : σ) :
    Relabels f earlier g (foldValues step vs s)
      (foldValues step' (vs.map (Value.mapLine f)) (g s)) := by
  induction vs generalizing s with
  | nil => exact relabels_pure s
  | cons v vs ih => exact (hstep s v).bind ih

theorem relabels_foldSpan (count : Nat) (start : Int64) (s : σ) :
    Relabels f earlier g (foldSpan step count start s) (foldSpan step' count start (g s)) := by
  induction count generalizing start s with
  | zero => exact relabels_pure s
  | succ count ih => exact (hstep s (.int start)).bind (ih (start + 1))

theorem relabels_foldItems (items : Items) (s : σ) :
    Relabels f earlier g (foldItems step items s) (foldItems step' (items.mapLine f) (g s)) := by
  cases items with
  | values vs => exact relabels_foldValues hstep vs s
  | span start count => exact relabels_foldSpan hstep count start s

end Folds

section Loops

variable {h h' : Value → Eval Value}
  (hf : ∀ v, Relabels f earlier (Value.mapLine f) (h v) (h' (v.mapLine f)))

theorem relabels_listOf (vs : List Value) :
    Relabels f earlier (Value.mapLine f) (pure (.list vs.reverse))
      (pure (.list (vs.map (Value.mapLine f)).reverse)) := by
  rw [← List.map_reverse, ← Value.mapLine_list]
  exact relabels_pure _

include hf in
theorem relabels_mapItems (items : Items) :
    Relabels f earlier (Value.mapLine f) (mapItems h items) (mapItems h' (items.mapLine f)) := by
  refine Relabels.bind (g := List.map (Value.mapLine f))
    (relabels_foldItems (fun acc v => ?_) items []) relabels_listOf
  exact (hf v).bind fun w => relabels_pure (w :: acc)

include hf in
theorem relabels_filterItems (items : Items) :
    Relabels f earlier (Value.mapLine f) (filterItems h items)
      (filterItems h' (items.mapLine f)) := by
  refine Relabels.bind (g := List.map (Value.mapLine f))
    (relabels_foldItems (fun acc v => ?_) items []) relabels_listOf
  refine (hf v).bind fun w => ?_
  rw [Value.truthy_mapLine]
  split
  · exact relabels_pure (v :: acc)
  · exact relabels_pure acc

theorem relabels_reduceItems {h h' : Value → Value → Eval Value}
    (hf : ∀ a v, Relabels f earlier (Value.mapLine f) (h a v) (h' (a.mapLine f) (v.mapLine f)))
    (items : Items) :
    Relabels f earlier (Option.map (Value.mapLine f)) (reduceItems h items)
      (reduceItems h' (items.mapLine f)) := by
  refine relabels_foldItems (fun acc v => ?_) items none
  cases acc with
  | none => exact relabels_pure (some v)
  | some a => exact (hf a v).bind fun w => relabels_pure (some w)

end Loops

/-! ## Calls -/

theorem relabels_checkArity (g : Callable) (line : Int) (got : Nat) :
    Relabels f earlier id (checkArity g line got) (checkArity (g.mapLine f) (f line) got) := by
  unfold checkArity
  rw [Callable.arity_mapLine]
  split
  · split
    · exact relabels_pure ()
    · exact relabels_fail _ line
  · exact relabels_pure ()

theorem relabels_printLine (muted : Bool) (args : List Value) :
    Relabels f earlier (Value.mapLine f) (printLine muted args)
      (printLine muted (args.map (Value.mapLine f))) := by
  unfold printLine
  rw [Value.map_text]
  cases muted with
  | true => exact relabels_pure (Value.string _)
  | false => exact (relabels_print _).bind fun _ => relabels_pure (Value.string _)

theorem relabels_collectionArgs (which : Builtin) (line : Int) (args : List Value) :
    Relabels f earlier (Prod.map (Callable.mapLine f) (Items.mapLine f))
      (collectionArgs which line args)
      (collectionArgs which (f line) (args.map (Value.mapLine f))) := by
  match args with
  | [] | [_] => exact relabels_fail _ line
  | [fn, collection] =>
    simp only [collectionArgs, List.map_cons, List.map_nil, Value.callable?_mapLine,
      Value.items?_mapLine, Value.typeName_mapLine]
    cases callable? fn with
    | none => exact relabels_fail _ line
    | some callable =>
      cases collection.items? with
      | none => exact relabels_fail _ line
      | some items => exact relabels_pure (callable, items)
  | _ :: _ :: _ :: _ =>
    simp only [collectionArgs, List.map_cons, List.length_cons, List.length_map]
    exact relabels_fail _ line

end Eval

open Eval

/-! ## Expressions -/

/-- Evaluating and calling with other lines. -/
structure RelabelsAt (f : Int → Int) (earlier : List Bytes) (fuel : Nat) : Prop where
  eval : ∀ e : Expr, Relabels f earlier (Value.mapLine f) (eval fuel e) (eval fuel (e.mapLine f))
  invoke : ∀ (g : Callable) (line : Int) (args : List Value),
    Relabels f earlier (Value.mapLine f) (invoke fuel g line args)
      (invoke fuel (g.mapLine f) (f line) (args.map (Value.mapLine f)))

section Step

variable {f : Int → Int} {earlier : List Bytes} {fuel : Nat} (ih : RelabelsAt f earlier fuel)
include ih

theorem relabels_evalAll (es : List Expr) :
    Relabels f earlier (List.map (Value.mapLine f)) (evalAll (eval fuel) es)
      (evalAll (eval fuel) (Expr.mapLines f es)) := by
  induction es with
  | nil => exact relabels_pure []
  | cons e es ihs =>
    exact (ih.eval e).bind fun v => ihs.bind fun vs => relabels_pure (v :: vs)

theorem relabels_evalBlock (es : List Expr) (last : Value) :
    Relabels f earlier (Value.mapLine f) (evalBlock (eval fuel) last es)
      (evalBlock (eval fuel) (last.mapLine f) (Expr.mapLines f es)) := by
  induction es generalizing last with
  | nil => exact relabels_pure last
  | cons e es ihs => exact (ih.eval e).bind ihs

theorem relabels_evalBranches : (b : Branches) →
    Relabels f earlier (Value.mapLine f) (evalBranches (eval fuel) b)
      (evalBranches (eval fuel) (b.mapLine f))
  | .done => relabels_pure Value.null
  | .otherwise body => (ih.eval body).inFrame []
  | .elseIf test yes no => by
    refine (ih.eval test).bind fun v => ?_
    rw [Value.truthy_mapLine]
    split
    · exact (ih.eval yes).inFrame []
    · exact relabels_evalBranches no

theorem relabels_eval_succ (e : Expr) :
    Relabels f earlier (Value.mapLine f) (eval (fuel + 1) e) (eval (fuel + 1) (e.mapLine f)) := by
  match e with
  | .literal value =>
    have h : Relabels f earlier (Value.mapLine f) (pure value.value)
        (pure (value.value.mapLine f)) := relabels_pure value.value
    rwa [Value.mapLine_literal] at h
  | .variable name line => exact relabels_lookup name line
  | .grouping inner => exact ih.eval inner
  | .unary op spelling line e => exact (ih.eval e).bind fun v => relabels_unaryOp op line v
  | .binary left op spelling line right =>
    exact (ih.eval left).bind fun v =>
      (ih.eval right).bind fun w => relabels_binaryOp op spelling line v w
  | .assign name line value =>
    exact (ih.eval value).bind fun v => (relabels_define name v).bind fun _ => relabels_pure v
  | .block line [] => exact relabels_pure Value.null
  | .block line (e :: es) => exact (relabels_evalBlock ih (e :: es) .null).inFrame []
  | .cond line test yes no =>
    refine (ih.eval test).bind fun v => ?_
    rw [Value.truthy_mapLine]
    split
    · exact (ih.eval yes).inFrame []
    · exact relabels_evalBranches ih no
  | .each line name items body =>
    refine (ih.eval items).bind fun v => ?_
    rw [Value.items?_mapLine, Value.typeName_mapLine]
    cases v.items? with
    | none => exact relabels_fail _ line
    | some items =>
      exact relabels_mapItems (fun item => (ih.eval body).inFrame [(name, item)]) items
  | .function line params body => exact relabels_newFunction params body
  | .call callee line args =>
    refine (ih.eval callee).bind fun v => ?_
    rw [Value.callable?_mapLine, Value.text_mapLine, Expr.mapLines_eq, List.length_map]
    cases callable? v with
    | none => exact relabels_fail _ line
    | some g =>
      rw [← Expr.mapLines_eq]
      exact (relabels_checkArity g line args.length).bind fun _ =>
        (relabels_evalAll ih args).bind fun vs => ih.invoke g line vs

theorem relabels_invoke_succ (g : Callable) (line : Int) (args : List Value) :
    Relabels f earlier (Value.mapLine f) (invoke (fuel + 1) g line args)
      (invoke (fuel + 1) (g.mapLine f) (f line) (args.map (Value.mapLine f))) := by
  have hcall : ∀ (g : Callable) (n : Nat) (vs : List Value),
      Relabels f earlier (Value.mapLine f) (do checkArity g line n; invoke fuel g line vs)
        (do checkArity (g.mapLine f) (f line) n
            invoke fuel (g.mapLine f) (f line) (vs.map (Value.mapLine f))) := fun g n vs =>
    (relabels_checkArity g line n).bind fun _ => ih.invoke g line vs
  cases g with
  | function params body =>
    have h := (ih.eval body).inFrame (.ofParams params args)
    rwa [Frame.ofParams_mapLine] at h
  | builtin which muted =>
    cases which with
    | print => exact relabels_printLine muted args
    | map =>
      exact (relabels_collectionArgs .map line args).bind fun p =>
        relabels_mapItems (fun v => hcall p.1 1 [v]) p.2
    | filter =>
      exact (relabels_collectionArgs .filter line args).bind fun p =>
        relabels_filterItems (fun v => hcall p.1 1 [v]) p.2
    | reduce =>
      refine (relabels_collectionArgs .reduce line args).bind fun p => ?_
      refine (relabels_reduceItems (fun a v => hcall p.1 2 [a, v]) p.2).bind fun r => ?_
      cases r with
      | none => exact relabels_fail _ line
      | some v => exact relabels_pure v

end Step

theorem relabelsAt (f : Int → Int) (earlier : List Bytes) (fuel : Nat) :
    RelabelsAt f earlier fuel := by
  induction fuel with
  | zero => exact ⟨fun _ => relabels_outOfFuel, fun _ _ _ => relabels_outOfFuel⟩
  | succ fuel ih => exact ⟨relabels_eval_succ ih, relabels_invoke_succ ih⟩

/-- Renumbering the lines of an expression and of the machine renumbers the result. -/
theorem eval_relabel (f : Int → Int) (earlier : List Bytes) (fuel : Nat) (e : Expr) (m : Machine) :
    eval fuel (e.mapLine f) (m.relabel f earlier) =
      relabelled f earlier (Value.mapLine f) (eval fuel e m) :=
  (relabelsAt f earlier fuel).eval e m

end ExprLang
