import ExprLang.Proofs.Evaluation.Loops

/-!
# Filter and reduce

On the same function and the same items `filter` does what `map` does, call by call, and differs in
its value only: it has the items whose results `map` would list as truthy. `reduce` calls its
function on what it has so far and the next item, up to the first call that fails.
-/

namespace ExprLang

open Eval

namespace Eval

/-- A call on values, with the check of their number. -/
def callOn (fuel : Nat) (f : Callable) (line : Int) (args : List Value) : Eval Value := do
  checkArity f line args.length
  invoke fuel f line args

/-! ## Calls of builtins -/

section Calls

variable {fuel : Nat} {m : Machine} {l line : Int} {which : Builtin} {root : Root}

/-- A call of a builtin by its name. -/
theorem eval_builtin_call {args : List Expr}
    (hname : m.scope.lookup which.name = some (.builtin which root))
    (harity : which.arity = some args.length) :
    eval (fuel + 2) (.call (.variable which.name l) line args) m =
      (evalAll (eval (fuel + 1)) args >>= invoke (fuel + 1) (.builtin which root.muted) line) m := by
  have hcallee : eval (fuel + 1) (.variable which.name l) m = .ok (.builtin which root) m := by
    rw [eval, lookup_some hname]
  have hcheck : checkArity (.builtin which root.muted) line args.length m = .ok () m := by
    simp only [checkArity, Callable.arity, harity, if_true]
    rfl
  rw [eval, bind_ok hcallee]
  simp only [callable?]
  rw [bind_ok hcheck]

variable {f v : Value} {g : Callable} {items : Items} {muted : Bool}

theorem collectionArgs_ok (hf : callable? f = some g) (hv : v.items? = some items) :
    collectionArgs which line [f, v] = pure (g, items) := by
  simp only [collectionArgs, hf, hv]

theorem invoke_map (hf : callable? f = some g) (hv : v.items? = some items) :
    invoke (fuel + 1) (.builtin .map muted) line [f, v] =
      (do pure (.list (← items.toList.mapM fun i => callOn fuel g line [i]))) := by
  rw [invoke, collectionArgs_ok hf hv, pure_bind]
  exact mapItems_eq _ items

theorem invoke_filter (hf : callable? f = some g) (hv : v.items? = some items) :
    invoke (fuel + 1) (.builtin .filter muted) line [f, v] =
      (do pure (.list (kept items.toList
        (← items.toList.mapM fun i => callOn fuel g line [i])))) := by
  rw [invoke, collectionArgs_ok hf hv, pure_bind]
  exact filterItems_eq _ items

theorem invoke_reduce (hf : callable? f = some g) (hv : v.items? = some items) :
    invoke (fuel + 1) (.builtin .reduce muted) line [f, v] =
      match items.toList with
      | [] => fail .emptyReduce line
      | i :: is => is.foldlM (fun a i => callOn fuel g line [a, i]) i := by
  rw [invoke, collectionArgs_ok hf hv, pure_bind]
  dsimp only
  rw [reduceItems_eq]
  cases items.toList with
  | nil => rfl
  | cons i is =>
    simp only [bind_assoc, pure_bind, bind_pure]
    rfl

end Calls

/-! ## Results -/

/-- The results of `map` and `filter` on the same items: the same failure, or the results of all
items and the items with a truthy one; the machines are the same. -/
inductive Filters (items : List Value) : EStateM.Result Halt Machine Value →
    EStateM.Result Halt Machine Value → Prop
  | done (rs : List Value) (m : Machine) (h : rs.length = items.length) :
    Filters items (.ok (.list rs) m) (.ok (.list (kept items rs)) m)
  | failed (e : Halt) (m : Machine) : Filters items (.error e m) (.error e m)

/-- A left fold, call by call: `r` is the result of putting all values into `a`, or of the first
call that fails. -/
inductive Folds (f : Value → Value → Eval Value) : Value → List Value → Machine →
    EStateM.Result Halt Machine Value → Prop
  | done (a : Value) (m : Machine) : Folds f a [] m (.ok a m)
  | call {a b v : Value} {vs : List Value} {m m' : Machine}
    {r : EStateM.Result Halt Machine Value} (h : f a v m = .ok b m') (hs : Folds f b vs m' r) :
    Folds f a (v :: vs) m r
  | failed {a v : Value} {vs : List Value} {e : Halt} {m m' : Machine}
    (h : f a v m = .error e m') : Folds f a (v :: vs) m (.error e m')

theorem mapM_length {f : Value → Eval Value} {vs ws : List Value} {m m' : Machine}
    (h : vs.mapM f m = .ok ws m') : ws.length = vs.length := by
  induction vs generalizing ws m with
  | nil =>
    cases h
    rfl
  | cons v vs ih =>
    rw [List.mapM_cons] at h
    cases hv : f v m with
    | error e n =>
      rw [bind_error hv] at h
      cases h
    | ok w n =>
      rw [bind_ok hv] at h
      cases hvs : vs.mapM f n with
      | error e n' =>
        rw [bind_error hvs] at h
        cases h
      | ok us n' =>
        rw [bind_ok hvs] at h
        cases h
        rw [List.length_cons, List.length_cons, ih hvs]

theorem filters_mapM (f : Value → Eval Value) (vs : List Value) (m : Machine) :
    Filters vs ((do pure (Value.list (← vs.mapM f)) : Eval Value) m)
      ((do pure (Value.list (kept vs (← vs.mapM f))) : Eval Value) m) := by
  cases h : vs.mapM f m with
  | ok rs n =>
    rw [bind_ok h, bind_ok h]
    exact .done rs n (mapM_length h)
  | error e n =>
    rw [bind_error h, bind_error h]
    exact .failed e n

theorem folds_foldlM (f : Value → Value → Eval Value) (vs : List Value) (a : Value) (m : Machine) :
    Folds f a vs m (vs.foldlM f a m) := by
  induction vs generalizing a m with
  | nil => exact .done a m
  | cons v vs ih =>
    rw [List.foldlM_cons]
    cases h : f a v m with
    | ok b n =>
      rw [bind_ok h]
      exact .call h (ih b n)
    | error e n =>
      rw [bind_error h]
      exact .failed h

end Eval

/-- `filter` and `reduce` on a function and a value with items, from the machine in which `map` gets
them. Nothing is called by `reduce` if there is at most one item. -/
theorem filter_reduce_calls (fuel : Nat) (m m₁ : Machine) (l line : Int) (F V : Expr)
    (f v : Value) (g : Callable) (items : List Value) (root : Builtin → Root)
    (hargs : evalAll (eval (fuel + 1)) [F, V] m = .ok [f, v] m₁)
    (hf : callable? f = some g) (hv : HasItems v items) :
    let bound (b : Builtin) := m.scope.lookup b.name = some (.builtin b (root b))
    let run (b : Builtin) := eval (fuel + 2) (.call (.variable b.name l) line [F, V]) m
    (bound .map → bound .filter → Filters items (run .map) (run .filter)) ∧
      (bound .reduce →
        (items = [] → run .reduce = .error (.error ⟨.emptyReduce, line⟩) m₁) ∧
        (∀ i, items = [i] → run .reduce = .ok i m₁) ∧
        ∀ i is, items = i :: is →
          Folds (fun a j => callOn fuel g line [a, j]) i is m₁ (run .reduce)) := by
  obtain ⟨its, hits, rfl⟩ := hv.exists_items?
  intro bound run
  have hrun : ∀ b, b.arity = some 2 → bound b →
      run b = invoke (fuel + 1) (.builtin b (root b).muted) line [f, v] m₁ := by
    intro b harity hname
    have hcall : run b = (evalAll (eval (fuel + 1)) [F, V] >>=
        invoke (fuel + 1) (.builtin b (root b).muted) line) m :=
      eval_builtin_call hname harity
    rw [hcall, bind_ok hargs]
  refine ⟨fun hmap hfilter => ?_, fun hname => ?_⟩
  · rw [hrun .map rfl hmap, hrun .filter rfl hfilter, invoke_map hf hits, invoke_filter hf hits]
    exact filters_mapM _ _ m₁
  · have hreduce := hrun .reduce rfl hname
    rw [invoke_reduce hf hits] at hreduce
    refine ⟨fun h => ?_, fun i h => ?_, fun i is h => ?_⟩
    · rw [hreduce, h]
      rfl
    · rw [hreduce, h]
      rfl
    · rw [hreduce, h]
      exact folds_foldlM _ is i m₁

/-- `print` on the integers from 1 to 3. -/
theorem filter_reduce_calls_print :
    let root : Root := ⟨0, false⟩
    let m : Machine := ⟨⟨Frame.globals root, []⟩, [], 1⟩
    let F := Expr.variable (bytes "print") 1
    let V := Expr.binary (.literal (.int 1)) .to (bytes "to") 1 (.literal (.int 4))
    let bound (b : Builtin) := m.scope.lookup b.name = some (.builtin b root)
    let run (b : Builtin) := eval 7 (.call (.variable b.name 1) 2 [F, V]) m
    let items : List Value := [.int 1, .int 2, .int 3]
    (bound .map ∧ bound .filter ∧ bound .reduce) ∧
      evalAll (eval 6) [F, V] m = .ok [.builtin .print root, .range 1 4] m ∧
      HasItems (.range 1 4) items ∧ Filters items (run .map) (run .filter) ∧
      Folds (fun a j => callOn 5 (.builtin .print false) 2 [a, j]) (.int 1) [.int 2, .int 3] m
        (run .reduce) := by
  intro root m F V bound run items
  have hargs : evalAll (eval 6) [F, V] m = .ok [.builtin .print root, .range 1 4] m := rfl
  have hitems : HasItems (.range 1 4) items := .range 1 4 [1, 2, 3] (by decide)
  obtain ⟨hfilter, hreduce⟩ := filter_reduce_calls 5 m m 1 2 F V _ _
    (.builtin .print false) items (fun _ => root) hargs rfl hitems
  exact ⟨⟨rfl, rfl, rfl⟩, hargs, hitems, hfilter rfl rfl, (hreduce rfl).2.2 _ _ rfl⟩

end ExprLang
