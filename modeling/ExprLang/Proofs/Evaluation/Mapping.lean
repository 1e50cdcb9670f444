import ExprLang.Proofs.Evaluation.Collections
import ExprLang.Proofs.Evaluation.Identities

/-!
# Loops and calls of `map`

A loop and a call of `map` on a function with the same body do the same: both evaluate the list once
and then the body for each item, in a frame that binds the item. They differ in what they say of a
value without items, and in the identities of functions, since `map` is given a function first.
-/

namespace ExprLang

namespace Eval

/-- With some fuel the evaluation gives this value or this error of the language. -/
def Gives (x : Nat → Eval Value) (m : Machine) (r : EStateM.Result Halt Machine Value) : Prop :=
  Final r ∧ ∃ fuel, x fuel m = r

/-- Visits to values, one after the other, up to the first one that fails. -/
inductive Visits (f : Value → Nat → Eval Value) :
    List Value → Machine → EStateM.Result Halt Machine (List Value) → Prop
  | nil (m : Machine) : Visits f [] m (.ok [] m)
  | next {v w : Value} {vs ws : List Value} {m m₁ m₂ : Machine} (h : Gives (f v) m (.ok w m₁))
    (hs : Visits f vs m₁ (.ok ws m₂)) : Visits f (v :: vs) m (.ok (w :: ws) m₂)
  | failsLater {v w : Value} {vs : List Value} {e : Halt} {m m₁ m₂ : Machine}
    (h : Gives (f v) m (.ok w m₁)) (hs : Visits f vs m₁ (.error e m₂)) :
    Visits f (v :: vs) m (.error e m₂)
  | fails {v : Value} {vs : List Value} {e : Halt} {m m₁ : Machine}
    (h : Gives (f v) m (.error e m₁)) : Visits f (v :: vs) m (.error e m₁)

/-- The body of a loop, in the frame of an item. -/
def body (x : Bytes) (B : Expr) (item : Value) (fuel : Nat) : Eval Value :=
  inFrame [(x, item)] (eval fuel B)

/-- How a loop over `L` with the body `B` can end, and how the same with `map` does. The results are
the same except that a value without items is refused at different lines and with different
messages; both are type errors. -/
inductive LoopResults (x : Bytes) (L B : Expr) (line line' : Int) (m : Machine) :
    EStateM.Result Halt Machine Value → EStateM.Result Halt Machine Value → Prop
  | listFails {e : Halt} {n : Machine} (h : Gives (eval · L) m (.error e n)) :
    LoopResults x L B line line' m (.error e n) (.error e n)
  | notIterable {v : Value} {n : Machine} (h : Gives (eval · L) m (.ok v n))
    (hv : ∀ vs, ¬ HasItems v vs) :
    LoopResults x L B line line' m (.error (.error ⟨.notIterable v.typeName, line⟩) n)
      (.error (.error ⟨.notACollection .map v.typeName, line'⟩) n)
  | bodyFails {v : Value} {vs : List Value} {e : Halt} {n n' : Machine}
    (h : Gives (eval · L) m (.ok v n)) (hv : HasItems v vs)
    (hb : Visits (body x B) vs n (.error e n')) :
    LoopResults x L B line line' m (.error e n') (.error e n')
  | done {v : Value} {vs ws : List Value} {n n' : Machine} (h : Gives (eval · L) m (.ok v n))
    (hv : HasItems v vs) (hb : Visits (body x B) vs n (.ok ws n'))
    (hlength : ws.length = vs.length) :
    LoopResults x L B line line' m (.ok (.list ws) n') (.ok (.list ws) n')

/-! ## Results that are final -/

theorem final_ok {α : Type} (v : α) (m : Machine) : Final (.ok v m) := by
  intro n h
  cases h

theorem final_error {α : Type} (e : RuntimeError) (m : Machine) :
    Final (.error (.error e) m : EStateM.Result Halt Machine α) := by
  intro n h
  cases h

theorem Final.error {α β : Type} {e : Halt} {m : Machine}
    (h : Final (.error e m : EStateM.Result Halt Machine α)) :
    Final (.error e m : EStateM.Result Halt Machine β) := by
  rintro n heq
  cases heq
  exact h _ rfl

theorem final_rebased {a b : Nat} {r : EStateM.Result Halt Machine Value} :
    Final (rebased a b r) ↔ Final r := by
  cases r with
  | ok v m => exact iff_of_true (final_ok _ _) (final_ok _ _)
  | error e m =>
    cases e with
    | error e => exact iff_of_true (final_error _ _) (final_error _ _)
    | outOfFuel => exact iff_of_false (fun h => h _ rfl) (fun h => h _ rfl)

theorem Gives.unique {e : Expr} {m : Machine} {r r' : EStateM.Result Halt Machine Value}
    (h : Gives (eval · e) m r) (h' : Gives (eval · e) m r') : r = r' := by
  obtain ⟨hr, fuel, rfl⟩ := h
  obtain ⟨hr', fuel', rfl⟩ := h'
  exact (eval_mono (Nat.le_max_left fuel fuel') hr).symm.trans
    (eval_mono (Nat.le_max_right fuel fuel') hr')

/-- The calls of a loop as visits. -/
theorem visits_mapM {f : Value → Nat → Eval Value} {fuel : Nat} {vs : List Value} {m : Machine}
    {r : EStateM.Result Halt Machine (List Value)} (h : vs.mapM (fun v => f v fuel) m = r)
    (hr : Final r) : Visits f vs m r := by
  induction vs generalizing m r with
  | nil =>
    subst h
    exact .nil m
  | cons v vs ih =>
    rw [List.mapM_cons] at h
    cases hv : f v fuel m with
    | error e n =>
      rw [bind_error hv] at h
      subst h
      exact .fails ⟨hr.error, fuel, hv⟩
    | ok w n =>
      have hgives : Gives (f v) m (.ok w n) := ⟨final_ok w n, fuel, hv⟩
      rw [bind_ok hv] at h
      cases hvs : vs.mapM (fun v => f v fuel) n with
      | error e n' =>
        rw [bind_error hvs] at h
        subst h
        exact .failsLater hgives (ih hvs hr.error)
      | ok ws n' =>
        rw [bind_ok hvs] at h
        subst h
        exact .next hgives (ih hvs (final_ok ws n'))

/-! ## The common loop -/

/-- The values of the body for the items of `L`, or an error if it has none. -/
def eachItem (refuse : TypeName → RuntimeCause) (line : Int) (x : Bytes) (L B : Expr)
    (fuelL fuelB : Nat) : Eval Value := do
  let v ← eval fuelL L
  match v.items? with
  | none => fail (refuse v.typeName) line
  | some items => mapItems (fun item => body x B item fuelB) items

section EachItem

variable {x : Bytes} {L B : Expr} {m : Machine}

theorem eval_each (fuel : Nat) (line : Int) :
    eval (fuel + 1) (.each line x L B) = eachItem .notIterable line x L B fuel fuel := by
  rw [eval]
  rfl

/-- A function of one parameter called on an item is the body in the frame of the item. -/
theorem callOn_item (fuel : Nat) (line : Int) (item : Value) :
    callOn (fuel + 1) (.function [x] B) line [item] = body x B item fuel := by
  have hcheck : checkArity (.function [x] B) line [item].length = pure () := rfl
  rw [callOn, hcheck, pure_bind, invoke]
  rfl

theorem invoke_map_function (fuel : Nat) (muted : Bool) (line : Int) (i : Nat) (v : Value) :
    invoke (fuel + 2) (.builtin .map muted) line [.function i [x] B, v] =
      match v.items? with
      | none => fail (.notACollection .map v.typeName) line
      | some items => mapItems (fun item => body x B item fuel) items := by
  cases hv : v.items? with
  | none =>
    have hargs : collectionArgs .map line [.function i [x] B, v] =
        fail (.notACollection .map v.typeName) line := by
      simp only [collectionArgs, callable?, hv]
    rw [invoke, hargs]
    rfl
  | some items =>
    have hcall : (fun item => callOn (fuel + 1) (.function [x] B) line [item]) =
        fun item => body x B item fuel := funext (callOn_item fuel line)
    rw [invoke_map rfl hv, hcall]
    exact (mapItems_eq _ items).symm

/-- The function that `map` gets takes one identity. -/
theorem eval_map {root : Root}
    (hmap : m.scope.lookup Builtin.map.name = some (.builtin .map root)) (fuel : Nat)
    (l line l' : Int) :
    eval (fuel + 3) (.call (.variable Builtin.map.name l) line [.function l' [x] B, L]) m =
      eachItem (.notACollection .map) line x L B (fuel + 2) fuel
        { m with fresh := m.fresh + 1 } := by
  have hfunction : eval (fuel + 2) (.function l' [x] B) m =
      .ok (.function m.fresh [x] B) { m with fresh := m.fresh + 1 } := by
    rw [eval]
    rfl
  have hcall : eval (fuel + 3) (.call (.variable Builtin.map.name l) line [.function l' [x] B, L]) m =
      (evalAll (eval (fuel + 2)) [.function l' [x] B, L] >>=
        invoke (fuel + 2) (.builtin .map root.muted) line) m := eval_builtin_call hmap rfl
  rw [hcall]
  simp only [evalAll, bind_assoc, pure_bind]
  rw [bind_ok hfunction]
  simp only [invoke_map_function]
  rfl

/-- What a loop does, whatever is said of values without items. -/
theorem loopResults_eachItem (line line' : Int) {fuel : Nat} {refuse : TypeName → RuntimeCause}
    {l : Int} (hr : Final (eachItem refuse l x L B fuel fuel m)) :
    LoopResults x L B line line' m (eachItem .notIterable line x L B fuel fuel m)
      (eachItem (.notACollection .map) line' x L B fuel fuel m) := by
  unfold eachItem at hr ⊢
  cases hL : eval fuel L m with
  | error e n =>
    rw [bind_error hL] at hr
    rw [bind_error hL, bind_error hL]
    exact .listFails ⟨hr, fuel, hL⟩
  | ok v n =>
    have hlist : Gives (eval · L) m (.ok v n) := ⟨final_ok v n, fuel, hL⟩
    rw [bind_ok hL] at hr
    rw [bind_ok hL, bind_ok hL]
    cases hv : v.items? with
    | none =>
      refine .notIterable hlist fun vs hvs => ?_
      obtain ⟨items, hitems, -⟩ := hvs.exists_items?
      rw [hv] at hitems
      cases hitems
    | some items =>
      have hitems := hasItems_of_items? hv
      simp only [hv, mapItems_eq] at hr ⊢
      cases hb : items.toList.mapM (fun item => body x B item fuel) n with
      | error e n' =>
        rw [bind_error hb] at hr
        rw [bind_error hb]
        exact .bodyFails hlist hitems (visits_mapM hb hr.error)
      | ok ws n' =>
        rw [bind_ok hb]
        exact .done hlist hitems (visits_mapM hb (final_ok ws n')) (mapM_length hb)

theorem LoopResults.final_iff {line line' : Int} {r r' : EStateM.Result Halt Machine Value}
    (h : LoopResults x L B line line' m r r') : Final r ↔ Final r' := by
  cases h with
  | notIterable => exact iff_of_true (final_error _ _) (final_error _ _)
  | _ => rfl

theorem simulates_body (a b : Nat) {fuel k : Nat} (hk : fuel ≤ k) {v w : Value}
    (h : Value.Alike (.runs a b true) v w) :
    Simulates (.runs a b true) (Value.Alike (.runs a b true)) (body x B v fuel) (body x B w k) :=
  (eval_simulates_self a b hk B).inFrame (keepsOuter_eval _ _) (keepsOuter_eval _ _)
    (.cons ⟨rfl, h⟩ .nil)

theorem simulates_eachItem (a b : Nat) (refuse : TypeName → RuntimeCause) (line : Int)
    {p q p' q' : Nat} (hp : p ≤ p') (hq : q ≤ q') :
    Simulates (.runs a b true) (Value.Alike (.runs a b true)) (eachItem refuse line x L B p q)
      (eachItem refuse line x L B p' q') := by
  refine (eval_simulates_self a b hp L).bind fun v w hv => ?_
  have hitems := hv.items?
  rw [hv.typeName]
  generalize v.items? = c at hitems ⊢
  generalize w.items? = d at hitems ⊢
  cases hitems with
  | none => exact simulates_fail _ rfl
  | some hitems => exact simulates_mapItems hitems fun v w hv => simulates_body a b hq hv

end EachItem

end Eval

open Eval

section Mapped

variable {x : Bytes} {L B : Expr} {m : Machine} {root : Root}
  (hmap : m.scope.lookup Builtin.map.name = some (.builtin .map root)) (hm : m.Issued)
include hmap hm

/-- The call does what the loop does, in a machine with the next identity. -/
theorem eval_map_rebased (l line l' : Int) {fuel : Nat}
    (hr : Final (eachItem (.notACollection .map) line x L B fuel fuel m)) :
    eval (fuel + 3) (.call (.variable Builtin.map.name l) line [.function l' [x] B, L]) m =
      rebased m.fresh (m.fresh + 1)
        (eachItem (.notACollection .map) line x L B fuel fuel m) := by
  have hsim := simulates_eachItem (x := x) (L := L) (B := B) m.fresh (m.fresh + 1)
    (.notACollection .map) line (Nat.le_add_right fuel 2) (Nat.le_refl fuel)
  rw [eval_map hmap]
  exact hsim.eq_rebased hm.known hr

/-- If the call ends, so does the loop. -/
theorem final_of_eval_map (l line l' : Int) {fuel : Nat} (hr : Final
      (eval fuel (.call (.variable Builtin.map.name l) line [.function l' [x] B, L]) m)) :
    Final (eachItem (.notACollection .map) line x L B (fuel + 2) (fuel + 2) m) := by
  have hsim := simulates_eachItem (x := x) (L := L) (B := B) (m.fresh + 1) m.fresh
    (.notACollection .map) line (Nat.le_refl (fuel + 2)) (Nat.le_add_right fuel 2)
  rw [← eval_mono (Nat.le_add_right fuel 3) hr, eval_map hmap] at hr
  have hback := hsim.eq_rebased hm.known_back hr
  rw [← final_rebased, ← hback] at hr
  exact hr

end Mapped

/-- A loop over `L` with the body `B` and `map` with a function of this body end together, in
machines and with values that are equal but for the identities of the functions made on the way,
each of which is greater by one with `map`. -/
theorem loop_like_map (x : Bytes) (L B : Expr) (line l line' l' : Int) (m : Machine) (root : Root)
    (hmap : m.scope.lookup Builtin.map.name = some (.builtin .map root)) (hm : m.Issued) :
    let loop := Expr.each line x L B
    let mapped := Expr.call (.variable Builtin.map.name l) line' [.function l' [x] B, L]
    let shifted := rebased m.fresh (m.fresh + 1)
    (∀ r, Gives (eval · loop) m r →
        ∃ r', LoopResults x L B line line' m r r' ∧ Gives (eval · mapped) m (shifted r')) ∧
      ∀ q, Gives (eval · mapped) m q →
        ∃ r r', LoopResults x L B line line' m r r' ∧ Gives (eval · loop) m r ∧
          q = shifted r' := by
  intro loop mapped shifted
  have hforth : ∀ r, Gives (eval · loop) m r →
      ∃ r', LoopResults x L B line line' m r r' ∧ Gives (eval · mapped) m (shifted r') := by
    rintro r ⟨hr, fuel, hfuel⟩
    change eval fuel loop m = r at hfuel
    cases fuel with
    | zero => exact absurd hfuel.symm (hr m)
    | succ fuel =>
      obtain rfl := (congrFun (eval_each fuel line) m).symm.trans hfuel
      have hresults := loopResults_eachItem line line' hr
      have hr' := hresults.final_iff.mp hr
      exact ⟨_, hresults, final_rebased.mpr hr', fuel + 3, eval_map_rebased hmap hm l line' l' hr'⟩
  refine ⟨hforth, fun q hq => ?_⟩
  obtain ⟨hr, fuel, hfuel⟩ := hq
  change eval fuel mapped m = q at hfuel
  have hr' : Final (eachItem (.notACollection .map) line' x L B (fuel + 2) (fuel + 2) m) := by
    rw [← hfuel] at hr
    exact final_of_eval_map hmap hm l line' l' hr
  have hloop : Gives (eval · loop) m
      (eachItem .notIterable line x L B (fuel + 2) (fuel + 2) m) :=
    ⟨(loopResults_eachItem line line' hr').final_iff.mpr hr', fuel + 3,
      congrFun (eval_each (fuel + 2) line) m⟩
  obtain ⟨r', hresults, hmapped⟩ := hforth _ hloop
  exact ⟨_, r', hresults, hloop, Gives.unique ⟨hr, fuel, hfuel⟩ hmapped⟩

/-- A function made for each character of a string. -/
theorem loop_like_map_functions :
    let root : Root := ⟨0, false⟩
    let m : Machine := ⟨⟨Frame.globals root, []⟩, [], 1⟩
    let L := Expr.literal (.string (bytes "ab"))
    let B := Expr.function 3 [] (.variable (bytes "c") 3)
    let made (i : Nat) := Value.function i [] (.variable (bytes "c") 3)
    let r : EStateM.Result Halt Machine Value := .ok (.list [made 1, made 2]) { m with fresh := 3 }
    m.scope.lookup Builtin.map.name = some (.builtin .map root) ∧ m.Issued ∧
      Gives (eval · (.each 1 (bytes "c") L B)) m r ∧
      ∃ r', LoopResults (bytes "c") L B 1 2 m r r' ∧
        Gives (eval · (.call (.variable Builtin.map.name 1) 2 [.function 2 [bytes "c"] B, L])) m
          (rebased 1 2 r') := by
  intro root m L B made r
  have hmap : m.scope.lookup Builtin.map.name = some (.builtin .map root) := rfl
  have hm : m.Issued := by unfold Machine.Issued; decide
  have hr : Gives (eval · (.each 1 (bytes "c") L B)) m r := ⟨final_ok _ _, 9, rfl⟩
  exact ⟨hmap, hm, hr, (loop_like_map (bytes "c") L B 1 1 2 2 m root hmap hm).1 r hr⟩

end ExprLang
