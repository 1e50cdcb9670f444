import ExprLang.Proofs.Evaluation.Frames

/-!
# What evaluation keeps of values

A property of values may depend on the functions made so far. It lasts if making more of them does
not end it, if literals, builtins and new functions have it, and if a list has it whenever its items
do. If all values in scope have such a property, evaluation gives a value that has it and leaves
such a scope, also after an error.
-/

namespace ExprLang

/-! ## Lasting properties -/

/-- The parameters and the body of every function made so far, in the order of their identities. -/
abbrev Declarations := List (List Bytes × Expr)

/-- Any functions will do for a property that looks at their number only. -/
theorem exists_declarations (n : Nat) : ∃ ds : Declarations, n = ds.length :=
  ⟨List.replicate n ([], .block 0 []), List.length_replicate.symm⟩

namespace Value

/-- A value of the language without identity or items. -/
def isPlain : Value → Bool
  | .int _ | .float _ | .string _ | .bool _ | .null | .range .. | .builtin .. => true
  | .list _ | .function .. | .absent | .foreign _ => false

/-- A property that evaluation keeps. -/
structure Lasting (P : Declarations → Value → Prop) : Prop where
  mono : ∀ {ds ks : Declarations} {v : Value}, ds <+: ks → P ds v → P ks v
  plain : ∀ {ds : Declarations} {v : Value}, v.isPlain = true → P ds v
  function : ∀ (ds : Declarations) (params : List Bytes) (body : Expr),
    P (ds ++ [(params, body)]) (.function ds.length params body)
  list : ∀ {ds : Declarations} {vs : List Value}, P ds (.list vs) ↔ ∀ v ∈ vs, P ds v

/-! ## Operators -/

theorem isPlain_literal (l : Literal) : l.value.isPlain = true := by cases l <;> rfl

theorem isPlain_checked {r : Option Int64} {v : Value} (h : checked r = .ok v) :
    v.isPlain = true := by
  cases r with
  | none => cases h
  | some n =>
    cases h
    rfl

theorem isPlain_divide {x y : Float} {v : Value} (h : divide x y = .ok v) : v.isPlain = true := by
  unfold divide at h
  split at h
  · cases h
  · cases h
    rfl

theorem isPlain_integerOp {op : BinaryOp} {x y : Int64} {v : Value}
    (h : integerOp op x y = .ok v) : v.isPlain = true := by
  match op with
  | .plus | .minus | .star => exact isPlain_checked h
  | .slash => exact isPlain_divide h
  | .less | .lessEqual | .greater | .greaterEqual =>
    cases h
    rfl
  | .and | .or | .equal | .notEqual | .to => cases h

theorem isPlain_floatOp {op : BinaryOp} {x y : Float} {v : Value}
    (h : floatOp op x y = .ok v) : v.isPlain = true := by
  match op with
  | .slash => exact isPlain_divide h
  | .plus | .minus | .star | .less | .lessEqual | .greater | .greaterEqual =>
    cases h
    rfl
  | .and | .or | .equal | .notEqual | .to => cases h

theorem isPlain_stringOp {op : BinaryOp} {s t : Bytes} {v : Value}
    (h : stringOp op s t = .ok v) : v.isPlain = true := by
  match op with
  | .plus | .less | .lessEqual | .greater | .greaterEqual =>
    cases h
    rfl
  | .minus | .star | .slash | .and | .or | .equal | .notEqual | .to => cases h

theorem isPlain_negate {v w : Value} (h : v.negate = .ok w) : w.isPlain = true := by
  cases v with
  | int n => exact isPlain_checked h
  | float x =>
    cases h
    rfl
  | _ => cases h

namespace Lasting

variable {P : Declarations → Value → Prop} (hP : Lasting P) {ds : Declarations}
include hP

theorem all_mono {ks : Declarations} (hk : ds <+: ks) {vs : List Value} (h : ∀ v ∈ vs, P ds v) :
    ∀ v ∈ vs, P ks v := fun v hv => hP.mono hk (h v hv)

/-- The items of joined lists are those of the two lists; all other results hold no items. -/
theorem operate {op : BinaryOp} {v w u : Value} (hv : P ds v) (hw : P ds w)
    (h : v.operate op w = .ok u) : P ds u := by
  unfold Value.operate at h
  split at h
  · exact hP.plain (isPlain_integerOp h)
  · exact hP.plain (isPlain_floatOp h)
  · exact hP.plain (isPlain_floatOp h)
  · exact hP.plain (isPlain_floatOp h)
  · exact hP.plain (isPlain_stringOp h)
  · split at h
    · cases h
      exact hP.list.mpr (List.forall_mem_append.mpr ⟨hP.list.mp hv, hP.list.mp hw⟩)
    · cases h
  · cases h

theorem spanList (start : Int64) (count : Nat) : ∀ v ∈ Items.spanList start count, P ds v := by
  induction count generalizing start with
  | zero => exact List.forall_mem_nil _
  | succ count ih => exact List.forall_mem_cons.mpr ⟨hP.plain rfl, ih (start + 1)⟩

theorem items {v : Value} {items : Items} (hv : P ds v) (h : v.items? = some items) :
    ∀ item ∈ items.toList, P ds item := by
  unfold Value.items? at h
  split at h
  · cases h
    exact hP.list.mp hv
  · cases h
    exact hP.spanList _ _
  · cases h
    exact List.forall_mem_map.mpr fun c _ => hP.plain rfl
  · cases h

end Lasting

end Value

open Value (Lasting)

/-! ## Scopes -/

/-- All values in a frame. -/
def Frame.All (P : Value → Prop) (frame : Frame) : Prop := ∀ p ∈ frame, P p.2

/-- All values in a scope. -/
def Scope.All (P : Value → Prop) (s : Scope) : Prop := ∀ frame ∈ s.frames, frame.All P

namespace Frame

variable {P Q : Value → Prop}

theorem All.imp {frame : Frame} (h : frame.All P) (himp : ∀ v, P v → Q v) : frame.All Q :=
  fun p hp => himp p.2 (h p hp)

theorem all_nil : Frame.All P [] := List.forall_mem_nil _

theorem all_singleton {name : Bytes} {v : Value} (hv : P v) : Frame.All P [(name, v)] :=
  List.forall_mem_singleton.mpr hv

theorem all_globals {root : Root} (h : ∀ b, P (.builtin b root)) : (globals root).All P :=
  List.forall_mem_map.mpr fun b _ => h b

theorem all_ofParams (params : List Bytes) {vs : List Value} (h : ∀ v ∈ vs, P v) :
    (ofParams params vs).All P :=
  fun _ hp => h _ (List.of_mem_zip (List.mem_reverse.mp hp)).2

theorem All.lookup {frame : Frame} (h : frame.All P) {name : Bytes} {v : Value}
    (hv : List.lookup name frame = some v) : P v := by
  induction frame with
  | nil => cases hv
  | cons p frame ih =>
    obtain ⟨hp, hframe⟩ := List.forall_mem_cons.mp h
    rw [List.lookup_cons] at hv
    split at hv
    · cases hv
      exact hp
    · exact ih hframe hv

end Frame

namespace Scope.All

variable {P Q : Value → Prop} {s : Scope} (h : s.All P)
include h

theorem imp (himp : ∀ v, P v → Q v) : s.All Q := fun frame hframe => (h frame hframe).imp himp

theorem lookup {name : Bytes} {v : Value} (hv : s.lookup name = some v) : P v := by
  obtain ⟨frame, hframe, hl⟩ := List.exists_of_findSome?_eq_some hv
  exact (h frame hframe).lookup hl

theorem define (name : Bytes) {v : Value} (hv : P v) : (s.define name v).All P := by
  obtain ⟨htop, houter⟩ := List.forall_mem_cons.mp h
  exact List.forall_mem_cons.mpr ⟨List.forall_mem_cons.mpr ⟨hv, htop⟩, houter⟩

theorem push {frame : Frame} (hf : frame.All P) : (s.push frame).All P :=
  List.forall_mem_cons.mpr ⟨hf, h⟩

theorem pop : s.pop.All P := by
  obtain ⟨top, outer⟩ := s
  cases outer with
  | nil => exact h
  | cons frame outer => exact (List.forall_mem_cons.mp h).2

end Scope.All

/-- All values in scope, if the machine has made the given functions. -/
structure Machine.All (P : Declarations → Value → Prop) (ds : Declarations) (m : Machine) :
    Prop where
  fresh : m.fresh = ds.length
  scope : m.scope.All (P ds)

namespace Eval

variable {α β σ : Type} {P : Declarations → Value → Prop} {Q : Declarations → α → Prop}
  {R : Declarations → β → Prop} {ds : Declarations}

/-! ## Effects -/

/-- A result with the property in scope, and with a property of the value if there is one. -/
def ResultAll (P : Declarations → Value → Prop) (Q : Declarations → α → Prop)
    (ds : Declarations) : EStateM.Result Halt Machine α → Prop
  | .ok v m => Q ds v ∧ m.All P ds
  | .error _ m => m.All P ds

/-- From a machine with the property in scope that has made the given functions or more, an
evaluation gives such a result and may have made more functions. -/
def Keeps (P : Declarations → Value → Prop) (ds : Declarations) (Q : Declarations → α → Prop)
    (x : Eval α) : Prop :=
  ∀ (m : Machine) (ks : Declarations), ds <+: ks → m.All P ks →
    ∃ ls, ks <+: ls ∧ ResultAll P Q ls (x m)

theorem keeps_pure {v : α} (hv : ∀ ks, ds <+: ks → Q ks v) : Keeps P ds Q (pure v) :=
  fun _ ks hk hm => ⟨ks, List.prefix_rfl, hv ks hk, hm⟩

theorem keeps_throw (e : Halt) : Keeps P ds Q (throw e) :=
  fun _ ks _ hm => ⟨ks, List.prefix_rfl, hm⟩

theorem keeps_fail (cause : RuntimeCause) (line : Int) : Keeps P ds Q (fail cause line) :=
  keeps_throw _

theorem Keeps.bind {x : Eval α} {f : α → Eval β} (hx : Keeps P ds Q x)
    (hf : ∀ ks v, ds <+: ks → Q ks v → Keeps P ks R (f v)) : Keeps P ds R (x >>= f) := by
  intro m ks hk hm
  obtain ⟨ls, hl, hresult⟩ := hx m ks hk hm
  cases hr : x m with
  | ok v m' =>
    rw [hr] at hresult
    obtain ⟨ls', hl', hresult'⟩ :=
      hf ls v (hk.trans hl) hresult.1 m' ls List.prefix_rfl hresult.2
    rw [bind_ok hr]
    exact ⟨ls', hl.trans hl', hresult'⟩
  | error e m' =>
    rw [hr] at hresult
    rw [bind_error hr]
    exact ⟨ls, hl, hresult⟩

section Values

variable (hP : Lasting P)
include hP

theorem keeps_value {v : Value} (hv : P ds v) : Keeps P ds P (pure v) :=
  keeps_pure fun _ hk => hP.mono hk hv

theorem keeps_plain {v : Value} (hv : v.isPlain = true) : Keeps P ds P (pure v) :=
  keeps_value hP (hP.plain hv)

omit hP in
theorem keeps_lookup (name : Bytes) (line : Int) : Keeps P ds P (lookup name line) := by
  intro m ks _ hm
  refine ⟨ks, List.prefix_rfl, ?_⟩
  cases hv : m.scope.lookup name with
  | some v =>
    rw [lookup_some hv]
    exact ⟨hm.scope.lookup hv, hm⟩
  | none =>
    rw [lookup_none hv]
    exact hm

theorem keeps_define (name : Bytes) {v : Value} (hv : P ds v) :
    Keeps P ds (fun _ _ => True) (define name v) :=
  fun _ ks hk hm => ⟨ks, List.prefix_rfl, trivial, hm.fresh, hm.scope.define name (hP.mono hk hv)⟩

omit hP in
theorem keeps_print (line : Bytes) : Keeps P ds (fun _ _ => True) (print line) :=
  fun _ ks _ hm => ⟨ks, List.prefix_rfl, trivial, hm.fresh, hm.scope⟩

/-- The new function is the next one in the list. -/
theorem keeps_newFunction (params : List Bytes) (body : Expr) :
    Keeps P ds P (newFunction params body) := by
  intro m ks _ hm
  have hnext : ks <+: ks ++ [(params, body)] := List.prefix_append ks _
  refine ⟨ks ++ [(params, body)], hnext, ?_, ?_, hm.scope.imp fun _ => hP.mono hnext⟩
  · rw [hm.fresh]
    exact hP.function ks params body
  · rw [List.length_append, List.length_singleton, ← hm.fresh]

theorem Keeps.inFrame {x : Eval α} (h : Keeps P ds Q x) {frame : Frame} (hf : frame.All (P ds)) :
    Keeps P ds Q (inFrame frame x) := by
  intro m ks hk hm
  obtain ⟨ls, hl, hresult⟩ := h { m with scope := m.scope.push frame } ks hk
    ⟨hm.fresh, hm.scope.push (hf.imp fun _ => hP.mono hk)⟩
  refine ⟨ls, hl, ?_⟩
  unfold Eval.inFrame
  cases hx : x { m with scope := m.scope.push frame } with
  | ok v m' =>
    rw [hx] at hresult
    exact ⟨hresult.1, hresult.2.fresh, hresult.2.scope.pop⟩
  | error e m' =>
    rw [hx] at hresult
    exact ⟨hresult.fresh, hresult.scope.pop⟩

/-! ## Operators -/

theorem keeps_ofOperator (cause : RuntimeCause) (line : Int) {r : Except OperatorFault Value}
    (h : ∀ v, r = .ok v → P ds v) : Keeps P ds P (ofOperator cause line r) := by
  cases r with
  | ok v => exact keeps_value hP (h v rfl)
  | error fault => cases fault <;> exact keeps_fail _ line

theorem keeps_unaryOp (op : UnaryOp) (line : Int) (v : Value) :
    Keeps P ds P (unaryOp op line v) := by
  cases op with
  | minus => exact keeps_ofOperator hP _ line fun _ h => hP.plain (Value.isPlain_negate h)
  | not => exact keeps_plain hP rfl

theorem keeps_rangeOf (line : Int) (v w : Value) : Keeps P ds P (rangeOf line v w) := by
  unfold rangeOf
  split
  · exact keeps_plain hP rfl
  · exact keeps_fail _ line

theorem keeps_binaryOp (op : BinaryOp) (spelling : Bytes) (line : Int) {v w : Value}
    (hv : P ds v) (hw : P ds w) : Keeps P ds P (binaryOp op spelling line v w) := by
  match op with
  | .equal | .notEqual => exact keeps_plain hP rfl
  | .and | .or =>
    simp only [binaryOp]
    split
    · exact keeps_value hP (by assumption)
    · exact keeps_value hP (by assumption)
  | .to => exact keeps_rangeOf hP line v w
  | .greater | .less | .greaterEqual | .lessEqual | .plus | .minus | .slash | .star =>
    exact keeps_ofOperator hP _ line fun _ => hP.operate hv hw

/-! ## Loops -/

section Folds

variable {I : Declarations → σ → Prop} (hI : ∀ ks ks' s, ks <+: ks' → I ks s → I ks' s)
  {step : σ → Value → Eval σ}
  (hstep : ∀ ks s v, ds <+: ks → I ks s → P ks v → Keeps P ks I (step s v))
include hI hstep

theorem keeps_foldValues {vs : List Value} (hvs : ∀ v ∈ vs, P ds v) {s : σ} (hs : I ds s) :
    Keeps P ds I (foldValues step vs s) := by
  induction vs generalizing ds s with
  | nil => exact keeps_pure fun ks hk => hI ds ks _ hk hs
  | cons v vs ih =>
    obtain ⟨hv, hvs⟩ := List.forall_mem_cons.mp hvs
    refine (hstep ds s v List.prefix_rfl hs hv).bind fun ks t hk ht => ?_
    exact ih (fun ks' s v hk' => hstep ks' s v (hk.trans hk')) (hP.all_mono hk hvs) ht

theorem keeps_foldSpan (count : Nat) (start : Int64) {s : σ} (hs : I ds s) :
    Keeps P ds I (foldSpan step count start s) := by
  induction count generalizing ds start s with
  | zero => exact keeps_pure fun ks hk => hI ds ks _ hk hs
  | succ count ih =>
    refine (hstep ds s (.int start) List.prefix_rfl hs (hP.plain rfl)).bind fun ks t hk ht => ?_
    exact ih (fun ks' s v hk' => hstep ks' s v (hk.trans hk')) (start + 1) ht

theorem keeps_foldItems {items : Items} (hitems : ∀ v ∈ items.toList, P ds v) {s : σ}
    (hs : I ds s) : Keeps P ds I (foldItems step items s) := by
  cases items with
  | values vs => exact keeps_foldValues hP hI hstep hitems hs
  | span start count => exact keeps_foldSpan hP hI hstep count start hs

end Folds

section Loops

variable {items : Items} (hitems : ∀ v ∈ items.toList, P ds v)
include hitems

/-- The list of what a fold has collected, the latest first. -/
theorem keeps_collect {step : List Value → Value → Eval (List Value)}
    (hstep : ∀ ks acc v, ds <+: ks → (∀ w ∈ acc, P ks w) → P ks v →
      Keeps P ks (fun ks acc => ∀ w ∈ acc, P ks w) (step acc v)) :
    Keeps P ds P (do pure (.list (← foldItems step items []).reverse)) := by
  have hnil : ∀ w ∈ ([] : List Value), P ds w := List.forall_mem_nil _
  refine (keeps_foldItems (I := fun ks acc => ∀ w ∈ acc, P ks w) hP
    (fun _ _ _ hk => hP.all_mono hk) hstep hitems hnil).bind fun ks acc _ hacc => ?_
  exact keeps_value hP (hP.list.mpr fun v hv => hacc v (List.mem_reverse.mp hv))

theorem keeps_mapItems {f : Value → Eval Value}
    (hf : ∀ ks v, ds <+: ks → P ks v → Keeps P ks P (f v)) : Keeps P ds P (mapItems f items) := by
  refine keeps_collect hP hitems fun ks acc v hk hacc hv => ?_
  refine (hf ks v hk hv).bind fun ks' w hk' hw => keeps_pure fun _ hk'' => hP.all_mono hk'' ?_
  exact List.forall_mem_cons.mpr ⟨hw, hP.all_mono hk' hacc⟩

theorem keeps_filterItems {f : Value → Eval Value}
    (hf : ∀ ks v, ds <+: ks → P ks v → Keeps P ks P (f v)) :
    Keeps P ds P (filterItems f items) := by
  refine keeps_collect hP hitems fun ks acc v hk hacc hv => ?_
  refine (hf ks v hk hv).bind fun ks' w hk' _ => ?_
  split
  · refine keeps_pure fun _ hk'' => hP.all_mono hk'' ?_
    exact List.forall_mem_cons.mpr ⟨hP.mono hk' hv, hP.all_mono hk' hacc⟩
  · exact keeps_pure fun _ hk'' => hP.all_mono (hk'.trans hk'') hacc

theorem keeps_reduceItems {f : Value → Value → Eval Value}
    (hf : ∀ ks a v, ds <+: ks → P ks a → P ks v → Keeps P ks P (f a v)) :
    Keeps P ds (fun ks r => ∀ v, r = some v → P ks v) (reduceItems f items) := by
  have hsome : ∀ (ks ks' : Declarations) (r : Option Value), ks <+: ks' →
      (∀ v, r = some v → P ks v) → ∀ v, r = some v → P ks' v :=
    fun ks ks' r hk h v hv => hP.mono hk (h v hv)
  -- There is no accumulator before the first item, so there is nothing to prove of it.
  refine keeps_foldItems hP hsome (fun ks acc v hk hacc hv => ?_) hitems (fun v hv => by cases hv)
  cases acc with
  | none =>
    refine keeps_pure fun ks' hk' w hw => ?_
    cases hw
    exact hP.mono hk' hv
  | some a =>
    refine (hf ks a v hk (hacc a rfl) hv).bind fun ks' w _ hw => keeps_pure fun ks'' hk'' u hu => ?_
    cases hu
    exact hP.mono hk'' hw

end Loops

/-! ## Calls -/

omit hP in
theorem keeps_checkArity (g : Callable) (line : Int) (got : Nat) :
    Keeps P ds (fun _ _ => True) (checkArity g line got) := by
  unfold checkArity
  split
  · split
    · exact keeps_pure fun _ _ => trivial
    · exact keeps_fail _ line
  · exact keeps_pure fun _ _ => trivial

theorem keeps_printLine (muted : Bool) (args : List Value) :
    Keeps P ds P (printLine muted args) := by
  unfold printLine
  cases muted with
  | true => exact keeps_plain hP rfl
  | false => exact (keeps_print _).bind fun _ _ _ _ => keeps_plain hP rfl

theorem keeps_collectionArgs (which : Builtin) (line : Int) {args : List Value}
    (hargs : ∀ v ∈ args, P ds v) :
    Keeps P ds (fun ks p => ∀ v ∈ p.2.toList, P ks v) (collectionArgs which line args) := by
  unfold collectionArgs
  split
  · rename_i f collection
    have hcollection : P ds collection := hargs collection (by simp)
    split
    · exact keeps_fail _ line
    · split
      · exact keeps_fail _ line
      · rename_i hitems
        exact keeps_pure fun _ hk => hP.all_mono hk (hP.items hcollection hitems)
  · exact keeps_fail _ line

end Values

end Eval

open Eval

/-! ## Expressions -/

/-- Evaluating and calling keep a property. -/
structure KeepsAt (P : Declarations → Value → Prop) (fuel : Nat) : Prop where
  eval : ∀ ds e, Keeps P ds P (eval fuel e)
  invoke : ∀ ds g line args, (∀ v ∈ args, P ds v) → Keeps P ds P (invoke fuel g line args)

section Step

variable {P : Declarations → Value → Prop} (hP : Lasting P) {fuel : Nat} (ih : KeepsAt P fuel)
  {ds : Declarations}
include hP ih

theorem keeps_evalAll (es : List Expr) :
    Keeps P ds (fun ks vs => ∀ v ∈ vs, P ks v) (evalAll (eval fuel) es) := by
  induction es generalizing ds with
  | nil => exact keeps_pure fun ks _ => List.forall_mem_nil _
  | cons e es ihs =>
    refine (ih.eval ds e).bind fun ks v _ hv => ihs.bind fun ks' vs hk' hvs => ?_
    refine keeps_pure fun _ hk'' => hP.all_mono hk'' ?_
    exact List.forall_mem_cons.mpr ⟨hP.mono hk' hv, hvs⟩

theorem keeps_evalBlock (es : List Expr) {last : Value} (hlast : P ds last) :
    Keeps P ds P (evalBlock (eval fuel) last es) := by
  induction es generalizing ds last with
  | nil => exact keeps_value hP hlast
  | cons e es ihs => exact (ih.eval ds e).bind fun ks v _ hv => ihs hv

theorem keeps_evalBranches (ds : Declarations) :
    (b : Branches) → Keeps P ds P (evalBranches (eval fuel) b)
  | .done => keeps_plain hP rfl
  | .otherwise body => (ih.eval ds body).inFrame hP Frame.all_nil
  | .elseIf test yes no => by
    refine (ih.eval ds test).bind fun ks v _ _ => ?_
    split
    · exact (ih.eval ks yes).inFrame hP Frame.all_nil
    · exact keeps_evalBranches ks no

theorem keeps_eval_succ (ds : Declarations) (e : Expr) : Keeps P ds P (eval (fuel + 1) e) := by
  match e with
  | .literal value => exact keeps_plain hP (Value.isPlain_literal value)
  | .variable name line => exact keeps_lookup name line
  | .grouping inner => exact ih.eval ds inner
  | .unary op spelling line e =>
    exact (ih.eval ds e).bind fun ks v _ _ => keeps_unaryOp hP op line v
  | .binary left op spelling line right =>
    refine (ih.eval ds left).bind fun ks v _ hv => (ih.eval ks right).bind fun ks' w hk' hw => ?_
    exact keeps_binaryOp hP op spelling line (hP.mono hk' hv) hw
  | .assign name line value =>
    refine (ih.eval ds value).bind fun ks v _ hv => ?_
    exact (keeps_define hP name hv).bind fun ks' _ hk' _ => keeps_value hP (hP.mono hk' hv)
  | .block line [] => exact keeps_plain hP rfl
  | .block line (e :: es) =>
    exact (keeps_evalBlock hP ih (e :: es) (hP.plain rfl)).inFrame hP Frame.all_nil
  | .cond line test yes no =>
    refine (ih.eval ds test).bind fun ks v _ _ => ?_
    split
    · exact (ih.eval ks yes).inFrame hP Frame.all_nil
    · exact keeps_evalBranches hP ih ks no
  | .each line name items body =>
    refine (ih.eval ds items).bind fun ks v _ hv => ?_
    split
    · exact keeps_fail _ line
    · rename_i hitems
      exact keeps_mapItems hP (hP.items hv hitems) fun ks' item _ hitem =>
        (ih.eval ks' body).inFrame hP (Frame.all_singleton hitem)
  | .function line params body => exact keeps_newFunction hP params body
  | .call callee line args =>
    refine (ih.eval ds callee).bind fun ks v _ _ => ?_
    split
    · exact keeps_fail _ line
    · exact (keeps_checkArity _ line _).bind fun ks' _ _ _ =>
        (keeps_evalAll hP ih args).bind fun ks'' vs _ hvs => ih.invoke ks'' _ line vs hvs

theorem keeps_invoke_succ (ds : Declarations) (g : Callable) (line : Int) (args : List Value)
    (hargs : ∀ v ∈ args, P ds v) : Keeps P ds P (invoke (fuel + 1) g line args) := by
  have hcall : ∀ (ks : Declarations) (g : Callable) (got : Nat) (vs : List Value),
      (∀ v ∈ vs, P ks v) → Keeps P ks P (do checkArity g line got; invoke fuel g line vs) :=
    fun ks g got vs hvs => (keeps_checkArity g line got).bind fun ks' _ hk' _ =>
      ih.invoke ks' g line vs (hP.all_mono hk' hvs)
  cases g with
  | function params body => exact (ih.eval ds body).inFrame hP (Frame.all_ofParams params hargs)
  | builtin which muted =>
    cases which with
    | print => exact keeps_printLine hP muted args
    | map =>
      refine (keeps_collectionArgs hP .map line hargs).bind fun ks p _ hp => ?_
      exact keeps_mapItems hP hp fun ks' v _ hv =>
        hcall ks' p.1 1 [v] (List.forall_mem_singleton.mpr hv)
    | filter =>
      refine (keeps_collectionArgs hP .filter line hargs).bind fun ks p _ hp => ?_
      exact keeps_filterItems hP hp fun ks' v _ hv =>
        hcall ks' p.1 1 [v] (List.forall_mem_singleton.mpr hv)
    | reduce =>
      refine (keeps_collectionArgs hP .reduce line hargs).bind fun ks p _ hp => ?_
      have hreduce := keeps_reduceItems hP hp fun ks' a v _ ha hv => hcall ks' p.1 2 [a, v]
        (List.forall_mem_cons.mpr ⟨ha, List.forall_mem_singleton.mpr hv⟩)
      refine hreduce.bind fun ks' r _ hr => ?_
      split
      · exact keeps_value hP (hr _ rfl)
      · exact keeps_fail _ line

end Step

section Evaluation

variable {P : Declarations → Value → Prop} (hP : Lasting P)
include hP

theorem keepsAt (fuel : Nat) : KeepsAt P fuel := by
  induction fuel with
  | zero => exact ⟨fun _ _ => keeps_throw _, fun _ _ _ _ _ => keeps_throw _⟩
  | succ fuel ih => exact ⟨keeps_eval_succ hP ih, keeps_invoke_succ hP ih⟩

/-- Evaluation keeps a lasting property of the values in scope, and its value has it. -/
theorem resultAll_eval (fuel : Nat) (e : Expr) {m : Machine} (hm : m.All P ds) :
    ∃ ks, ds <+: ks ∧ ResultAll P P ks (eval fuel e m) :=
  (keepsAt hP fuel).eval ds e m ds List.prefix_rfl hm

end Evaluation

end ExprLang
