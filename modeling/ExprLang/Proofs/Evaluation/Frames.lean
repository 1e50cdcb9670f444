import ExprLang.Eval

/-!
# The frames around an evaluation

Definitions go into the innermost frame, and a frame that is pushed is popped again, also after an
error. So an evaluation leaves the frames around the innermost one as they were, and a block, a
branch, the body of a loop or a call leaves the whole scope as it was. In the innermost frame only
the names that an expression assigns outside such parts can be bound anew.
-/

namespace ExprLang

/-! ## The names an expression assigns -/

mutual

/-- The names assigned in the frame that an expression is evaluated in. What stands in a block, in a
branch or in the body of a loop or function is assigned in a frame of its own. -/
def Expr.targets : Expr → List Bytes
  | .literal _ | .variable .. | .block .. | .function .. => []
  | .grouping inner => inner.targets
  | .unary _ _ _ e => e.targets
  | .binary left _ _ _ right => left.targets ++ right.targets
  | .assign name _ value => name :: value.targets
  | .cond _ test _ no => test.targets ++ no.targets
  | .each _ _ items _ => items.targets
  | .call callee _ args => callee.targets ++ Expr.targetsAll args

def Expr.targetsAll : List Expr → List Bytes
  | [] => []
  | e :: es => e.targets ++ Expr.targetsAll es

/-- Those of the tests; the first test that holds is the last one evaluated. -/
def Branches.targets : Branches → List Bytes
  | .done | .otherwise _ => []
  | .elseIf test _ no => test.targets ++ no.targets

end

/-- The same frames, but for bindings of the given names in the innermost one. -/
structure Scope.SameBut (names : List Bytes) (s t : Scope) : Prop where
  outer : t.outer = s.outer
  top : ∀ name, name ∉ names → List.lookup name t.top = List.lookup name s.top

namespace Scope.SameBut

theorem refl (names : List Bytes) (s : Scope) : s.SameBut names s := ⟨rfl, fun _ _ => rfl⟩

theorem trans {names : List Bytes} {s t u : Scope} (h : s.SameBut names t)
    (h' : t.SameBut names u) : s.SameBut names u :=
  ⟨h'.outer.trans h.outer, fun name hn => (h'.top name hn).trans (h.top name hn)⟩

theorem mono {names more : List Bytes} {s t : Scope} (h : s.SameBut names t)
    (hs : names ⊆ more) : s.SameBut more t :=
  ⟨h.outer, fun name hn => h.top name fun hm => hn (hs hm)⟩

theorem define (s : Scope) (name : Bytes) (v : Value) : s.SameBut [name] (s.define name v) := by
  refine ⟨rfl, fun key hk => ?_⟩
  have hne : (key == name) = false := by simpa using hk
  simp only [Scope.define, Frame.define, List.lookup_cons, hne]

end Scope.SameBut

namespace Eval

/-- The machine an evaluation ends with. -/
def machineOf {α : Type} : EStateM.Result Halt Machine α → Machine
  | .ok _ m => m
  | .error _ m => m

/-- The same result with another scope. -/
def withScope {α : Type} (s : Scope) : EStateM.Result Halt Machine α → EStateM.Result Halt Machine α
  | .ok v m => .ok v { m with scope := s }
  | .error e m => .error e { m with scope := s }

theorem withScope_withScope {α : Type} (s t : Scope) (r : EStateM.Result Halt Machine α) :
    withScope s (withScope t r) = withScope s r := by
  cases r <;> rfl

/-- All frames but the innermost one are as before. -/
def KeepsOuter {α : Type} (x : Eval α) : Prop :=
  ∀ m, (machineOf (x m)).scope.outer = m.scope.outer

/-- Nothing but the given names may be bound anew, and only in the innermost frame. -/
def Writes {α : Type} (names : List Bytes) (x : Eval α) : Prop :=
  ∀ m : Machine, m.scope.SameBut names (machineOf (x m)).scope

theorem Writes.keepsOuter {α : Type} {names : List Bytes} {x : Eval α} (h : Writes names x) :
    KeepsOuter x := fun m => (h m).outer

theorem Writes.mono {α : Type} {names more : List Bytes} {x : Eval α} (h : Writes names x)
    (hs : names ⊆ more) : Writes more x := fun m => (h m).mono hs

/-! ## Effects -/

theorem bind_ok {α β : Type} {x : Eval α} {m m' : Machine} {v : α} (h : x m = .ok v m')
    (f : α → Eval β) : (x >>= f) m = f v m' := by
  simp only [bind, EStateM.bind, h]

theorem bind_error {α β : Type} {x : Eval α} {m m' : Machine} {e : Halt} (h : x m = .error e m')
    (f : α → Eval β) : (x >>= f) m = .error e m' := by
  simp only [bind, EStateM.bind, h]

theorem lookup_some {m : Machine} {name : Bytes} {v : Value} (h : m.scope.lookup name = some v)
    (line : Int) : lookup name line m = .ok v m := by
  have hget : (get : Eval Machine) m = .ok m m := rfl
  rw [lookup, bind_ok hget]
  simp only [h]
  rfl

theorem lookup_none {m : Machine} {name : Bytes} (h : m.scope.lookup name = none) (line : Int) :
    lookup name line m = .error (.error ⟨.undefinedVariable name, line⟩) m := by
  have hget : (get : Eval Machine) m = .ok m m := rfl
  rw [lookup, bind_ok hget]
  simp only [h]
  rfl

theorem keepsOuter_pure {α : Type} (v : α) : KeepsOuter (pure v : Eval α) := fun _ => rfl

theorem KeepsOuter.bind {α β : Type} {x : Eval α} {f : α → Eval β} (hx : KeepsOuter x)
    (hf : ∀ v, KeepsOuter (f v)) : KeepsOuter (x >>= f) := by
  intro m
  have h := hx m
  cases hr : x m with
  | ok v m' =>
    rw [hr] at h
    rw [bind_ok hr, hf v m']
    exact h
  | error e m' =>
    rw [hr] at h
    rw [bind_error hr]
    exact h

theorem inFrame_ok {α : Type} {act : Eval α} {frame : Frame} {m : Machine} {v : α}
    (h : act { m with scope := m.scope.push frame } =
      .ok v { m with scope := m.scope.push frame }) : inFrame frame act m = .ok v m := by
  simp only [inFrame, h, Scope.pop_push]

/-- What runs in a frame of its own gives the scope back. -/
theorem inFrame_eq {α : Type} {act : Eval α} (h : KeepsOuter act) (frame : Frame) (m : Machine) :
    inFrame frame act m = withScope m.scope (act { m with scope := m.scope.push frame }) := by
  have hpop : ∀ s : Scope, s.outer = m.scope.frames → s.pop = m.scope := by
    intro s hs
    simp only [Scope.pop, hs, Scope.frames]
  have ho := h { m with scope := m.scope.push frame }
  unfold inFrame
  cases hr : act { m with scope := m.scope.push frame } with
  | ok v m' =>
    rw [hr] at ho
    simp only [withScope, hpop m'.scope ho]
  | error e m' =>
    rw [hr] at ho
    simp only [withScope, hpop m'.scope ho]

section Effects

variable {α β : Type} {names : List Bytes}

theorem writes_pure (v : α) : Writes names (pure v : Eval α) := fun m => .refl names m.scope

theorem writes_throw (e : Halt) : Writes names (throw e : Eval α) := fun m => .refl names m.scope

theorem writes_fail (cause : RuntimeCause) (line : Int) :
    Writes names (fail cause line : Eval α) := writes_throw _

theorem Writes.bind {x : Eval α} {f : α → Eval β} (hx : Writes names x)
    (hf : ∀ v, Writes names (f v)) : Writes names (x >>= f) := by
  intro m
  have h := hx m
  cases hr : x m with
  | ok v m' =>
    rw [hr] at h
    rw [bind_ok hr]
    exact h.trans (hf v m')
  | error e m' =>
    rw [hr] at h
    rw [bind_error hr]
    exact h

theorem writes_lookup (name : Bytes) (line : Int) : Writes names (lookup name line) := by
  apply Writes.bind (fun m => .refl names m.scope)
  intro m
  split
  · exact writes_pure _
  · exact writes_fail _ _

theorem writes_define (name : Bytes) (v : Value) : Writes [name] (define name v) :=
  fun m => .define m.scope name v

theorem writes_print (line : Bytes) : Writes names (print line) := fun m => .refl names m.scope

theorem writes_newFunction (params : List Bytes) (body : Expr) :
    Writes names (newFunction params body) := fun m => .refl names m.scope

theorem KeepsOuter.writes_inFrame {act : Eval α} (h : KeepsOuter act) (frame : Frame) :
    Writes names (inFrame frame act) := by
  intro m
  rw [inFrame_eq h]
  cases act { m with scope := m.scope.push frame } <;> exact .refl names m.scope

theorem KeepsOuter.inFrame {act : Eval α} (h : KeepsOuter act) (frame : Frame) :
    KeepsOuter (inFrame frame act) := by
  have hw : Writes [] (Eval.inFrame frame act) := h.writes_inFrame frame
  exact hw.keepsOuter

/-! ## Operators and sequences -/

theorem writes_ofOperator (cause : RuntimeCause) (line : Int) (r : Except OperatorFault Value) :
    Writes names (ofOperator cause line r) := by
  unfold ofOperator
  split
  · exact writes_pure _
  · exact writes_fail _ _
  · exact writes_fail _ _
  · exact writes_fail _ _

theorem writes_unaryOp (op : UnaryOp) (line : Int) (v : Value) :
    Writes names (unaryOp op line v) := by
  cases op with
  | minus => exact writes_ofOperator _ _ _
  | not => exact writes_pure _

theorem writes_rangeOf (line : Int) (a b : Value) : Writes names (rangeOf line a b) := by
  unfold rangeOf
  split
  · exact writes_pure _
  · exact writes_fail _ _

theorem writes_binaryOp (op : BinaryOp) (spelling : Bytes) (line : Int) (a b : Value) :
    Writes names (binaryOp op spelling line a b) := by
  unfold binaryOp
  split
  · exact writes_pure _
  · exact writes_pure _
  · exact writes_pure _
  · exact writes_pure _
  · exact writes_rangeOf _ _ _
  · exact writes_ofOperator _ _ _

end Effects

theorem keepsOuter_evalBlock {ev : Expr → Eval Value} (hev : ∀ e, KeepsOuter (ev e))
    (es : List Expr) (last : Value) : KeepsOuter (evalBlock ev last es) := by
  induction es generalizing last with
  | nil => exact keepsOuter_pure _
  | cons e es ih => exact (hev e).bind fun v => ih v

section Sequences

variable {ev : Expr → Eval Value} (hev : ∀ e, Writes e.targets (ev e))
include hev

theorem writes_evalAll (es : List Expr) : Writes (Expr.targetsAll es) (evalAll ev es) := by
  induction es with
  | nil => exact writes_pure _
  | cons e es ih =>
    apply ((hev e).mono (List.subset_append_left _ _)).bind
    intro v
    exact (ih.mono (List.subset_append_right _ _)).bind fun vs => writes_pure _

theorem writes_evalBranches : (b : Branches) → Writes b.targets (evalBranches ev b)
  | .done => writes_pure _
  | .otherwise body => (hev body).keepsOuter.writes_inFrame []
  | .elseIf test yes no => by
    apply ((hev test).mono (List.subset_append_left _ _)).bind
    intro v
    split
    · exact (hev yes).keepsOuter.writes_inFrame []
    · exact (writes_evalBranches no).mono (List.subset_append_right _ _)

end Sequences

section Folds

variable {σ : Type} {names : List Bytes} {step : σ → Value → Eval σ}
  (hstep : ∀ s v, Writes names (step s v))
include hstep

theorem writes_foldValues (vs : List Value) (s : σ) : Writes names (foldValues step vs s) := by
  induction vs generalizing s with
  | nil => exact writes_pure _
  | cons v vs ih => exact (hstep s v).bind fun s => ih s

theorem writes_foldSpan (count : Nat) (start : Int64) (s : σ) :
    Writes names (foldSpan step count start s) := by
  induction count generalizing start s with
  | zero => exact writes_pure _
  | succ count ih => exact (hstep s (.int start)).bind fun s => ih (start + 1) s

theorem writes_foldItems (items : Items) (s : σ) : Writes names (foldItems step items s) := by
  cases items with
  | values vs => exact writes_foldValues hstep vs s
  | span start count => exact writes_foldSpan hstep count start s

end Folds

section Loops

variable {names : List Bytes}

theorem writes_mapItems {f : Value → Eval Value} (hf : ∀ v, Writes names (f v)) (items : Items) :
    Writes names (mapItems f items) := by
  refine Writes.bind (writes_foldItems (fun acc v => ?_) items []) fun results => writes_pure _
  exact (hf v).bind fun w => writes_pure _

theorem writes_filterItems {f : Value → Eval Value} (hf : ∀ v, Writes names (f v))
    (items : Items) : Writes names (filterItems f items) := by
  refine Writes.bind (writes_foldItems (fun acc v => ?_) items []) fun kept => writes_pure _
  apply (hf v).bind
  intro w
  split
  · exact writes_pure _
  · exact writes_pure _

theorem writes_reduceItems {f : Value → Value → Eval Value} (hf : ∀ a v, Writes names (f a v))
    (items : Items) : Writes names (reduceItems f items) := by
  refine writes_foldItems (fun acc v => ?_) items none
  split
  · exact writes_pure _
  · exact (hf _ v).bind fun w => writes_pure _

/-! ## Calls -/

theorem writes_checkArity (f : Callable) (line : Int) (got : Nat) :
    Writes names (checkArity f line got) := by
  unfold checkArity
  split
  · split
    · exact writes_pure _
    · exact writes_fail _ _
  · exact writes_pure _

theorem writes_printLine (muted : Bool) (args : List Value) :
    Writes names (printLine muted args) := by
  unfold printLine
  dsimp only
  split
  · exact (writes_print _).bind fun _ => writes_pure _
  · exact writes_pure _

theorem writes_collectionArgs (which : Builtin) (line : Int) (args : List Value) :
    Writes names (collectionArgs which line args) := by
  unfold collectionArgs
  split
  · split
    · exact writes_fail _ _
    · split
      · exact writes_fail _ _
      · exact writes_pure _
  · exact writes_fail _ _

end Loops

end Eval

open Eval

/-! ## Expressions and calls -/

section Step

variable {fuel : Nat} (heval : ∀ e, Writes e.targets (eval fuel e))
  (hinvoke : ∀ names f line vs, Writes names (invoke fuel f line vs))
include heval hinvoke

theorem writes_eval_succ (e : Expr) : Writes e.targets (eval (fuel + 1) e) := by
  match e with
  | .literal value => exact writes_pure _
  | .variable name line => exact writes_lookup name line
  | .grouping inner => exact heval inner
  | .unary op spelling line e => exact (heval e).bind fun v => writes_unaryOp op line v
  | .binary left op spelling line right =>
    apply ((heval left).mono (List.subset_append_left _ _)).bind
    intro a
    apply ((heval right).mono (List.subset_append_right _ _)).bind
    intro b
    exact writes_binaryOp op spelling line a b
  | .assign name line value =>
    have hname : [name] ⊆ name :: value.targets := List.cons_subset_cons name (List.nil_subset _)
    apply ((heval value).mono (List.subset_cons_self name _)).bind
    intro v
    exact ((writes_define name v).mono hname).bind fun _ => writes_pure _
  | .block line [] => exact writes_pure _
  | .block line (e :: es) =>
    exact (keepsOuter_evalBlock (fun e => (heval e).keepsOuter) (e :: es) .null).writes_inFrame []
  | .cond line test yes no =>
    apply ((heval test).mono (List.subset_append_left _ _)).bind
    intro v
    split
    · exact (heval yes).keepsOuter.writes_inFrame []
    · exact (writes_evalBranches heval no).mono (List.subset_append_right _ _)
  | .each line name items body =>
    apply (heval items).bind
    intro v
    split
    · exact writes_fail _ _
    · exact writes_mapItems
        (fun item => (heval body).keepsOuter.writes_inFrame [(name, item)]) _
  | .function line params body => exact writes_newFunction params body
  | .call callee line args =>
    apply ((heval callee).mono (List.subset_append_left _ _)).bind
    intro f
    split
    · exact writes_fail _ _
    · apply (writes_checkArity _ line _).bind
      intro _
      apply ((writes_evalAll heval args).mono (List.subset_append_right _ _)).bind
      intro vs
      exact hinvoke _ _ line vs

theorem writes_invoke_succ (names : List Bytes) (f : Callable) (line : Int) (vs : List Value) :
    Writes names (invoke (fuel + 1) f line vs) := by
  have hcall : ∀ g n args, Writes names (do checkArity g line n; invoke fuel g line args) :=
    fun g n args => (writes_checkArity g line n).bind fun _ => hinvoke names g line args
  cases f with
  | function params body => exact (heval body).keepsOuter.writes_inFrame (.ofParams params vs)
  | builtin which muted =>
    cases which with
    | print => exact writes_printLine muted vs
    | map =>
      exact (writes_collectionArgs .map line vs).bind fun p =>
        writes_mapItems (fun v => hcall p.1 1 [v]) p.2
    | filter =>
      exact (writes_collectionArgs .filter line vs).bind fun p =>
        writes_filterItems (fun v => hcall p.1 1 [v]) p.2
    | reduce =>
      apply (writes_collectionArgs .reduce line vs).bind
      intro p
      apply (writes_reduceItems (fun a v => hcall p.1 2 [a, v]) p.2).bind
      intro r
      split
      · exact writes_pure _
      · exact writes_fail _ _

end Step

theorem writes_eval_invoke (fuel : Nat) : (∀ e, Writes e.targets (eval fuel e)) ∧
    ∀ names f line vs, Writes names (invoke fuel f line vs) := by
  induction fuel with
  | zero => exact ⟨fun e => writes_throw _, fun names f line vs => writes_throw _⟩
  | succ fuel ih => exact ⟨writes_eval_succ ih.1 ih.2, writes_invoke_succ ih.1 ih.2⟩

/-- An evaluation binds no other names than those the expression assigns. -/
theorem writes_eval (fuel : Nat) (e : Expr) : Writes e.targets (eval fuel e) :=
  (writes_eval_invoke fuel).1 e

/-- Evaluation changes no frame but the innermost one. -/
theorem keepsOuter_eval (fuel : Nat) (e : Expr) : KeepsOuter (eval fuel e) :=
  (writes_eval fuel e).keepsOuter

end ExprLang
