import ExprLang.Proofs.Evaluation.Frames

/-!
# Arguments by index

Functions can also be handed their arguments unevaluated. They then check the number of arguments,
evaluate them, and take them by their index; a function bound to parameters takes as many as it has
parameters, and the builtins on collections take two. An index without an argument is a crash.

Here is the evaluator written that way. It is the same one, whatever a crash does: no call crashes.
-/

namespace ExprLang

open ExprLang.Eval

namespace ByIndex

/-! ## Evaluation -/

section Source

variable (crash : Eval Value)

/-- The argument at an index. -/
def argument (args : List (Eval Value)) (i : Nat) : Eval Value := args[i]?.getD crash

/-- The values of arguments, from left to right. -/
def evalArgs : List (Eval Value) → Eval (List Value)
  | [] => pure []
  | arg :: args => do
    let v ← arg
    let vs ← evalArgs args
    pure (v :: vs)

/-- Define parameters as the values from the index `i` on. -/
def bindParams (vs : List Value) : Nat → List Bytes → Frame → Eval Frame
  | _, [], frame => pure frame
  | i, param :: params, frame => do
    let v ← argument crash (vs.map pure) i
    bindParams vs (i + 1) params (frame.define param v)

/-- The function and the collection among unevaluated arguments. -/
def collection (which : Builtin) (line : Int) (args : List (Eval Value)) :
    Eval (Callable × Items) := do
  let f ← argument crash args 0
  let items ← argument crash args 1
  collectionArgs which line [f, items]

/-- One item of `reduce`, given the accumulator and whether it is still empty. -/
def reduceStep (f : Value → Value → Eval Value) : Value × Bool → Value → Eval (Value × Bool)
  | (_, true), v => pure (v, false)
  | (acc, false), v => do pure (← f acc v, false)

section Level

variable (ev : Expr → Eval Value) (call : Callable → Int → List (Eval Value) → Eval Value)

/-- An expression whose parts are evaluated by `ev` and whose calls are made by `call`. -/
def evalLevel : Expr → Eval Value
  | .literal l => pure l.value
  | .variable name line => lookup name line
  | .grouping inner => ev inner
  | .unary op _ line e => do
    let v ← ev e
    unaryOp op line v
  | .binary left op spelling line right => do
    let a ← ev left
    let b ← ev right
    binaryOp op spelling line a b
  | .assign name _ e => do
    let v ← ev e
    define name v
    pure v
  | .block _ [] => pure .null
  | .block _ body => inFrame [] (evalBlock ev .null body)
  | .cond _ test yes no => do
    let v ← ev test
    if v.truthy then inFrame [] (ev yes) else evalBranches ev no
  | .each line name items body => do
    let v ← ev items
    match v.items? with
    | none => fail (.notIterable v.typeName) line
    | some items => mapItems (fun item => inFrame [(name, item)] (ev body)) items
  | .function _ params body => newFunction params body
  | .call callee line args => do
    let f ← ev callee
    match callable? f with
    | none => fail (.notCallable f.text) line
    | some callable => call callable line (args.map ev)

/-- A call whose body is evaluated by `ev` and whose own calls are made by `call`. -/
def callLevel (g : Callable) (line : Int) (args : List (Eval Value)) : Eval Value := do
  checkArity g line args.length
  match g with
  | .function params body => do
    let vs ← evalArgs args
    let frame ← bindParams crash vs 0 params []
    inFrame frame (ev body)
  | .builtin .print muted => do
    let vs ← evalArgs args
    printLine muted vs
  | .builtin .map _ => do
    let (f, items) ← collection crash .map line args
    mapItems (fun v => call f line [pure v]) items
  | .builtin .filter _ => do
    let (f, items) ← collection crash .filter line args
    filterItems (fun v => call f line [pure v]) items
  | .builtin .reduce _ => do
    let (f, items) ← collection crash .reduce line args
    let (acc, empty) ← foldItems (reduceStep fun a v => call f line [pure a, pure v]) items
      (.absent, true)
    if empty then fail .emptyReduce line else pure acc

end Level

mutual

def eval : Nat → Expr → Eval Value
  | 0, _ => throw .outOfFuel
  | fuel + 1, e => evalLevel (eval fuel) (call fuel) e

/-- Call a function on unevaluated arguments. -/
def call : Nat → Callable → Int → List (Eval Value) → Eval Value
  | 0, g, line, args => do
    checkArity g line args.length
    let _ ← evalArgs args
    throw .outOfFuel
  | fuel + 1, g, line, args => callLevel crash (eval fuel) (call fuel) g line args

end

end Source

/-! ## Arguments and items -/

variable {crash : Eval Value}

theorem evalArgs_map (ev : Expr → Eval Value) (es : List Expr) :
    evalArgs (es.map ev) = evalAll ev es := by
  induction es with
  | nil => rfl
  | cons e es ih => rw [List.map_cons, evalArgs, evalAll, ih]

/-- There are as many values as arguments. -/
theorem evalArgs_bind_congr {α : Type} {args : List (Eval Value)} {k k' : List Value → Eval α}
    (h : ∀ vs, vs.length = args.length → k vs = k' vs) :
    evalArgs args >>= k = evalArgs args >>= k' := by
  induction args generalizing k k' with
  | nil => simp only [evalArgs, pure_bind, h [] rfl]
  | cons arg args ih =>
    simp only [evalArgs, bind_assoc, pure_bind]
    refine congrArg (arg >>= ·) (funext fun v => ih fun vs hvs => h (v :: vs) ?_)
    rw [List.length_cons, List.length_cons, hvs]

theorem bindParams_eq {vs : List Value} {i : Nat} {params : List Bytes}
    (h : i + params.length ≤ vs.length) (frame : Frame) :
    bindParams crash vs i params frame = pure ((params.zip (vs.drop i)).reverse ++ frame) := by
  induction params generalizing i frame with
  | nil => rfl
  | cons param params ih =>
    rw [List.length_cons] at h
    have hi : i < vs.length := by omega
    have harg : argument crash (vs.map pure) i = pure vs[i] := by
      simp [argument, List.getElem?_eq_getElem hi]
    rw [bindParams, harg, pure_bind, ih (by omega), List.drop_eq_getElem_cons hi,
      List.zip_cons_cons, List.reverse_cons, List.append_assoc]
    rfl

section Folds

variable {σ τ : Type} {g : σ → τ} {step : σ → Value → Eval σ} {step' : τ → Value → Eval τ}
  (hstep : ∀ s v, step' (g s) v = g <$> step s v)
include hstep

theorem foldValues_map (vs : List Value) (s : σ) :
    foldValues step' vs (g s) = g <$> foldValues step vs s := by
  induction vs generalizing s with
  | nil => simp only [foldValues, map_pure]
  | cons v vs ih => simp only [foldValues, hstep, bind_map_left, map_bind, ih]

theorem foldSpan_map (count : Nat) (start : Int64) (s : σ) :
    foldSpan step' count start (g s) = g <$> foldSpan step count start s := by
  induction count generalizing start s with
  | zero => simp only [foldSpan, map_pure]
  | succ count ih => simp only [foldSpan, hstep, bind_map_left, map_bind, ih]

theorem foldItems_map (items : Items) (s : σ) :
    foldItems step' items (g s) = g <$> foldItems step items s := by
  cases items with
  | values vs => exact foldValues_map hstep vs s
  | span start count => exact foldSpan_map hstep count start s

end Folds

/-- An accumulator with a flag that it is still empty. -/
def flagged : Option Value → Value × Bool
  | none => (.absent, true)
  | some a => (a, false)

theorem reduce_eq (f : Value → Value → Eval Value) (items : Items) :
    foldItems (reduceStep f) items (.absent, true) = flagged <$> reduceItems f items := by
  refine foldItems_map (g := flagged) (fun acc v => ?_) items none
  cases acc with
  | none => simp only [flagged, reduceStep, map_pure]
  | some a => simp only [flagged, reduceStep, map_bind, map_pure]

/-! ## Calls -/

/-- A call that evaluates its arguments first. -/
def callOnValues (fuel : Nat) (g : Callable) (line : Int) (args : List (Eval Value)) :
    Eval Value := do
  checkArity g line args.length
  let vs ← evalArgs args
  invoke fuel g line vs

/-- After the check of the number of arguments that number is right. -/
theorem checkArity_bind_congr {α : Type} {g : Callable} {line : Int} {got : Nat} {x y : Eval α}
    (h : (∀ want, g.arity = some want → want = got) → x = y) :
    (do checkArity g line got; x) = (do checkArity g line got; y) := by
  unfold checkArity
  cases hg : g.arity with
  | none => rw [h fun want hw => by rw [hg] at hw; cases hw]
  | some want =>
    by_cases hw : want = got
    · rw [h fun want' hw' => by rw [hg] at hw'; cases hw'; exact hw]
    · simp only [if_neg hw]
      rfl

theorem collection_eq {which : Builtin} {line : Int} {args : List (Eval Value)}
    (h : 2 = args.length) :
    collection crash which line args = evalArgs args >>= collectionArgs which line := by
  match args, h with
  | [x, y], _ => simp [collection, argument, evalArgs]

theorem callOnValues_one (fuel : Nat) (g : Callable) (line : Int) (v : Value) :
    callOnValues fuel g line [pure v] = (do checkArity g line 1; invoke fuel g line [v]) := by
  simp [callOnValues, evalArgs]

theorem callOnValues_two (fuel : Nat) (g : Callable) (line : Int) (v w : Value) :
    callOnValues fuel g line [pure v, pure w] =
      (do checkArity g line 2; invoke fuel g line [v, w]) := by
  simp [callOnValues, evalArgs]

theorem evalLevel_eq (fuel : Nat) (e : Expr) :
    evalLevel (ExprLang.eval fuel) (callOnValues fuel) e = ExprLang.eval (fuel + 1) e := by
  match e with
  | .literal _ | .variable .. | .grouping _ | .unary .. | .binary .. | .assign .. | .block _ []
  | .block _ (_ :: _) | .cond .. | .each .. | .function .. => rfl
  | .call callee line args =>
    refine congrArg (ExprLang.eval fuel callee >>= ·) (funext fun f => ?_)
    cases callable? f with
    | none => rfl
    | some g => simp only [callOnValues, List.length_map, evalArgs_map]

theorem callLevel_eq (fuel : Nat) (g : Callable) (line : Int) (args : List (Eval Value)) :
    callLevel crash (ExprLang.eval fuel) (callOnValues fuel) g line args =
      callOnValues (fuel + 1) g line args := by
  -- Behind the check every index that is asked for has an argument.
  refine checkArity_bind_congr fun harity => ?_
  cases g with
  | function params body =>
    have hlength : params.length = args.length := harity _ rfl
    refine evalArgs_bind_congr fun vs hvs => ?_
    rw [bindParams_eq (by omega), pure_bind, List.drop_zero, List.append_nil]
    rfl
  | builtin which muted =>
    cases which with
    | print => rfl
    | map =>
      simp only [collection_eq (harity _ rfl), bind_assoc, callOnValues_one]
      rfl
    | filter =>
      simp only [collection_eq (harity _ rfl), bind_assoc, callOnValues_one]
      rfl
    | reduce =>
      simp only [collection_eq (harity _ rfl), bind_assoc, callOnValues_two, reduce_eq,
        bind_map_left]
      refine evalArgs_bind_congr fun vs _ => ?_
      rw [invoke]
      refine congrArg (collectionArgs .reduce line vs >>= ·) (funext fun p => ?_)
      refine congrArg (reduceItems _ p.2 >>= ·) (funext fun acc => ?_)
      cases acc <;> rfl

/-- No call crashes. -/
theorem eval_eq_and_call_eq (fuel : Nat) : eval crash fuel = ExprLang.eval fuel ∧
    call crash fuel = callOnValues fuel := by
  induction fuel with
  | zero => exact ⟨rfl, rfl⟩
  | succ fuel ih =>
    constructor
    · funext e
      rw [eval, ih.1, ih.2, evalLevel_eq]
    · funext g line args
      rw [call, ih.1, ih.2, callLevel_eq]

theorem eval_eq (crash : Eval Value) (fuel : Nat) : eval crash fuel = ExprLang.eval fuel :=
  (eval_eq_and_call_eq fuel).1

end ByIndex

end ExprLang
