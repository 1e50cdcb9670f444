import ExprLang.RuntimeError
import ExprLang.Scope
import ExprLang.Value.Items
import ExprLang.Value.Operators

/-!
# Evaluation

Evaluation changes a machine: the current scope, the lines printed and the supply of function
identities. What was changed before an error stays changed, but frames pushed on the way are popped
again.

Blocks, branches, loop bodies and calls run in a frame of their own. A function does not remember
where it was made: its frame stands on the scope of the caller. Both operands of `and` and `or` are
evaluated.

Evaluation takes fuel, one unit for each level of nesting, and running out of it is not an error of
the program.
-/

namespace ExprLang

structure Machine where
  scope : Scope
  /-- The lines printed so far, the latest first. -/
  printed : List Bytes
  /-- The next unused function identity. -/
  fresh : Nat

/-- Why an evaluation stopped without a value. -/
inductive Halt
  | error (e : RuntimeError)
  | outOfFuel

abbrev Eval := EStateM Halt Machine

namespace Eval

/-! ## Effects -/

def fail {α : Type} (cause : RuntimeCause) (line : Int) : Eval α :=
  throw (.error ⟨cause, line⟩)

def lookup (name : Bytes) (line : Int) : Eval Value := do
  match (← get).scope.lookup name with
  | some v => pure v
  | none => fail (.undefinedVariable name) line

def define (name : Bytes) (value : Value) : Eval Unit :=
  modify fun m => { m with scope := m.scope.define name value }

def print (line : Bytes) : Eval Unit :=
  modify fun m => { m with printed := line :: m.printed }

def newFunction (params : List Bytes) (body : Expr) : Eval Value :=
  modifyGet fun m => (.function m.fresh params body, { m with fresh := m.fresh + 1 })

/-- Run in a new frame, which is dropped at the end, also after an error. -/
def inFrame {α : Type} (frame : Frame) (act : Eval α) : Eval α := fun m =>
  match act { m with scope := m.scope.push frame } with
  | .ok v m' => .ok v { m' with scope := m'.scope.pop }
  | .error e m' => .error e { m' with scope := m'.scope.pop }

/-! ## Operators -/

/-- The value of an operator, or the error raised at its line. -/
def ofOperator (unsupported : RuntimeCause) (line : Int) :
    Except OperatorFault Value → Eval Value
  | .ok v => pure v
  | .error .unsupported => fail unsupported line
  | .error .divisionByZero => fail .divisionByZero line
  | .error .overflow => fail .integerOverflow line

def unaryOp (op : UnaryOp) (line : Int) (v : Value) : Eval Value :=
  match op with
  | .minus => ofOperator (.badOperand v.typeName) line v.negate
  | .not => pure (.bool (!v.truthy))

def rangeOf (line : Int) : Value → Value → Eval Value
  | .int start, .int stop => pure (.range start stop)
  | start, stop => fail (.badBounds start.typeName stop.typeName) line

def binaryOp (op : BinaryOp) (spelling : Bytes) (line : Int) (left right : Value) :
    Eval Value :=
  match op with
  | .equal => pure (.bool (left.equals right))
  | .notEqual => pure (.bool (!left.equals right))
  | .and => pure (if left.truthy then right else left)
  | .or => pure (if left.truthy then left else right)
  | .to => rangeOf line left right
  | _ =>
    ofOperator (.unsupportedOperands spelling left.typeName right.typeName) line
      (left.operate op right)

/-! ## Sequences -/

/-- The values of expressions, from left to right. -/
def evalAll (ev : Expr → Eval Value) : List Expr → Eval (List Value)
  | [] => pure []
  | e :: es => do
    let v ← ev e
    let vs ← evalAll ev es
    pure (v :: vs)

/-- The value of the last of some statements. -/
def evalBlock (ev : Expr → Eval Value) (last : Value) : List Expr → Eval Value
  | [] => pure last
  | e :: es => do
    let v ← ev e
    evalBlock ev v es

def evalBranches (ev : Expr → Eval Value) : Branches → Eval Value
  | .done => pure .null
  | .otherwise body => inFrame [] (ev body)
  | .elseIf test yes no => do
    let v ← ev test
    if v.truthy then inFrame [] (ev yes) else evalBranches ev no

def foldValues {σ : Type} (step : σ → Value → Eval σ) : List Value → σ → Eval σ
  | [], s => pure s
  | v :: vs, s => do
    let s ← step s v
    foldValues step vs s

def foldSpan {σ : Type} (step : σ → Value → Eval σ) : Nat → Int64 → σ → Eval σ
  | 0, _, s => pure s
  | count + 1, start, s => do
    let s ← step s (.int start)
    foldSpan step count (start + 1) s

/-- A fold over items, in order. -/
def foldItems {σ : Type} (step : σ → Value → Eval σ) (items : Items) (s : σ) : Eval σ :=
  match items with
  | .values vs => foldValues step vs s
  | .span start count => foldSpan step count start s

/-- The results of a function on all items. -/
def mapItems (f : Value → Eval Value) (items : Items) : Eval Value := do
  let results ← foldItems (fun acc v => do pure ((← f v) :: acc)) items []
  pure (.list results.reverse)

/-- The items a function gives a truthy result on. -/
def filterItems (f : Value → Eval Value) (items : Items) : Eval Value := do
  let kept ← foldItems (fun acc v => do if (← f v).truthy then pure (v :: acc) else pure acc)
    items []
  pure (.list kept.reverse)

/-- The left fold of a function over the items, starting from the first one. -/
def reduceItems (f : Value → Value → Eval Value) (items : Items) : Eval (Option Value) :=
  foldItems (fun acc v =>
    match acc with
    | none => pure (some v)
    | some a => do pure (some (← f a v))) items none

/-! ## Calls -/

inductive Callable
  | function (params : List Bytes) (body : Expr)
  | builtin (which : Builtin) (muted : Bool)

def Callable.arity : Callable → Option Nat
  | .function params _ => some params.length
  | .builtin which _ => which.arity

def callable? : Value → Option Callable
  | .function _ params body => some (.function params body)
  | .builtin which root => some (.builtin which root.muted)
  | _ => none

def checkArity (f : Callable) (line : Int) (got : Nat) : Eval Unit :=
  match f.arity with
  | some want => if want = got then pure () else fail (.wrongArity want got) line
  | none => pure ()

/-- Print the arguments on one line, which is also the result. -/
def printLine (muted : Bool) (args : List Value) : Eval Value := do
  let line := (bytes " ").intercalate (args.map Value.text)
  if !muted then print line
  pure (.string line)

/-- The function and the collection that `map`, `filter` and `reduce` take. -/
def collectionArgs (which : Builtin) (line : Int) : List Value → Eval (Callable × Items)
  | [f, collection] =>
    match callable? f with
    | none => fail (.notAFunction which f.typeName) line
    | some callable =>
      match collection.items? with
      | none => fail (.notACollection which collection.typeName) line
      | some items => pure (callable, items)
  | args => fail (.wrongArity 2 args.length) line

end Eval

open Eval

/-- The nesting allowed where nothing else is asked for. -/
def defaultFuel : Nat := 100000000

mutual

def eval : Nat → Expr → Eval Value
  | 0, _ => throw .outOfFuel
  | fuel + 1, e =>
    match e with
    | .literal l => pure l.value
    | .variable name line => lookup name line
    | .grouping inner => eval fuel inner
    | .unary op _ line e => do
      let v ← eval fuel e
      unaryOp op line v
    | .binary left op spelling line right => do
      let a ← eval fuel left
      let b ← eval fuel right
      binaryOp op spelling line a b
    | .assign name _ e => do
      let v ← eval fuel e
      define name v
      pure v
    | .block _ [] => pure .null
    | .block _ body => inFrame [] (evalBlock (eval fuel) .null body)
    | .cond _ test yes no => do
      let v ← eval fuel test
      if v.truthy then inFrame [] (eval fuel yes) else evalBranches (eval fuel) no
    | .each line name items body => do
      let v ← eval fuel items
      match v.items? with
      | none => fail (.notIterable v.typeName) line
      | some items => mapItems (fun item => inFrame [(name, item)] (eval fuel body)) items
    | .function _ params body => newFunction params body
    | .call callee line args => do
      let f ← eval fuel callee
      match callable? f with
      | none => fail (.notCallable f.text) line
      | some callable =>
        checkArity callable line args.length
        let vs ← evalAll (eval fuel) args
        invoke fuel callable line vs

/-- Call a function on values. -/
def invoke : Nat → Callable → Int → List Value → Eval Value
  | 0, _, _, _ => throw .outOfFuel
  | fuel + 1, f, line, args =>
    match f with
    | .function params body => inFrame (.ofParams params args) (eval fuel body)
    | .builtin .print muted => printLine muted args
    | .builtin .map _ => do
      let (f, items) ← collectionArgs .map line args
      mapItems (fun v => do checkArity f line 1; invoke fuel f line [v]) items
    | .builtin .filter _ => do
      let (f, items) ← collectionArgs .filter line args
      filterItems (fun v => do checkArity f line 1; invoke fuel f line [v]) items
    | .builtin .reduce _ => do
      let (f, items) ← collectionArgs .reduce line args
      match ← reduceItems (fun a v => do checkArity f line 2; invoke fuel f line [a, v]) items with
      | some v => pure v
      | none => fail .emptyReduce line

end

end ExprLang
