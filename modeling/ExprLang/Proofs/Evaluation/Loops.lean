import ExprLang.Proofs.Evaluation.Frames
import ExprLang.Proofs.Numbers.Exact

/-!
# Loops over items

The items of a value are the elements of a list, the integers of a range from its start up to but
not including its end, and the characters of a string. The folds behind `map`, `filter` and `reduce`
run over the list of items, from the first to the last. `filter` calls its function on the same
items as `map` does and keeps those with a truthy result; `reduce` is the left fold of the items
behind the first one into it.
-/

namespace ExprLang

/-! ## Items -/

/-- The items of a value. Those of a range are given by their integers, so none is wrapped. -/
inductive HasItems : Value → List Value → Prop
  | list (vs : List Value) : HasItems (.list vs) vs
  | range (start stop : Int64) (ns : List Int64)
    (h : ns.map Int64.toInt =
      (List.range (stop.toInt - start.toInt).toNat).map fun (k : Nat) => start.toInt + k) :
    HasItems (.range start stop) (ns.map .int)
  | string (s : Bytes) :
    HasItems (.string s) ((Text.Utf8.chars s).map fun c => .string (Text.Utf8.encode c))

/-- Stepping through a range does not wrap. -/
theorem exists_spanList (start : Int64) {count : Nat}
    (h : start.toInt + count ≤ 9223372036854775807) : ∃ ns : List Int64,
    Items.spanList start count = ns.map .int ∧
      ns.map Int64.toInt = (List.range count).map fun (k : Nat) => start.toInt + k := by
  induction count generalizing start with
  | zero => exact ⟨[], rfl, rfl⟩
  | succ count ih =>
    have hlow := (Number.fits_toInt start).1
    have hfits : Number.Fits (start.toInt + (1 : Int64).toInt) := by
      have hone : (1 : Int64).toInt = 1 := rfl
      constructor <;> omega
    have hnext : (start + 1).toInt = start.toInt + 1 := by
      rw [Int64.toInt_add, Number.bmod_of_fits hfits]
      rfl
    obtain ⟨ns, hspan, hns⟩ := ih (start + 1) (by omega)
    refine ⟨start :: ns, by rw [Items.spanList, hspan, List.map_cons], ?_⟩
    rw [List.map_cons, hns, List.range_succ_eq_map, List.map_cons, List.map_map, hnext]
    refine congrArg₂ List.cons (Int.add_zero _).symm (List.map_congr_left fun k _ => ?_)
    simp only [Function.comp_apply, Nat.succ_eq_add_one]
    omega

theorem exists_ofRange (start stop : Int64) : ∃ ns : List Int64,
    (Items.ofRange start stop).toList = ns.map .int ∧ ns.map Int64.toInt =
      (List.range (stop.toInt - start.toInt).toNat).map fun (k : Nat) => start.toInt + k := by
  have hstart := Number.fits_toInt start
  have hstop := Number.fits_toInt stop
  apply exists_spanList
  have hfits : start.toInt ≤ 9223372036854775807 ∧ stop.toInt ≤ 9223372036854775807 :=
    ⟨hstart.2, hstop.2⟩
  omega

theorem hasItems_of_items? {v : Value} {items : Items} (h : v.items? = some items) :
    HasItems v items.toList := by
  unfold Value.items? at h
  split at h
  · cases h
    exact .list _
  · rename_i start stop
    cases h
    obtain ⟨ns, hspan, hns⟩ := exists_ofRange start stop
    rw [hspan]
    exact .range start stop ns hns
  · cases h
    exact .string _
  · cases h

theorem HasItems.exists_items? {v : Value} {vs : List Value} (h : HasItems v vs) :
    ∃ items, v.items? = some items ∧ items.toList = vs := by
  cases h with
  | list => exact ⟨_, rfl, rfl⟩
  | range start stop ns hns =>
    obtain ⟨ns', hspan, hns'⟩ := exists_ofRange start stop
    have hsame : ns' = ns :=
      List.map_inj_right (fun _ _ => Int64.toInt_inj.mp) |>.mp (hns'.trans hns.symm)
    exact ⟨_, rfl, by rw [hspan, hsame]⟩
  | string s => exact ⟨_, rfl, rfl⟩

namespace Eval

/-! ## Folds -/

theorem foldValues_eq {σ : Type} (step : σ → Value → Eval σ) (vs : List Value) (s : σ) :
    foldValues step vs s = vs.foldlM step s := by
  induction vs generalizing s with
  | nil => rfl
  | cons v vs ih =>
    rw [foldValues, List.foldlM_cons]
    exact bind_congr ih

theorem foldSpan_eq {σ : Type} (step : σ → Value → Eval σ) (count : Nat) (start : Int64) (s : σ) :
    foldSpan step count start s = (Items.spanList start count).foldlM step s := by
  induction count generalizing start s with
  | zero => rfl
  | succ count ih =>
    rw [foldSpan, Items.spanList, List.foldlM_cons]
    exact bind_congr fun s => ih (start + 1) s

theorem foldItems_eq {σ : Type} (step : σ → Value → Eval σ) (items : Items) (s : σ) :
    foldItems step items s = items.toList.foldlM step s := by
  cases items with
  | values vs => exact foldValues_eq step vs s
  | span start count => exact foldSpan_eq step count start s

/-! ## Map and filter -/

section Results

variable (f : Value → Eval Value)

/-- Results are collected from the latest to the first. -/
theorem foldlM_results (vs acc : List Value) :
    (vs.foldlM (fun acc v => do pure ((← f v) :: acc)) acc) =
      (do pure ((← vs.mapM f).reverse ++ acc)) := by
  induction vs generalizing acc with
  | nil => rfl
  | cons v vs ih =>
    simp only [List.foldlM_cons, List.mapM_cons, bind_assoc, pure_bind, ih, List.reverse_cons,
      List.append_assoc, List.singleton_append]

theorem mapItems_eq (items : Items) :
    mapItems f items = (do pure (.list (← items.toList.mapM f))) := by
  rw [mapItems, foldItems_eq, foldlM_results]
  simp only [bind_assoc, pure_bind, List.append_nil, List.reverse_reverse]

/-- The items whose results are truthy. -/
def kept (items results : List Value) : List Value :=
  ((items.zip results).filter fun p => p.2.truthy).map Prod.fst

theorem kept_cons (v w : Value) (vs ws : List Value) :
    kept (v :: vs) (w :: ws) = if w.truthy then v :: kept vs ws else kept vs ws := by
  unfold kept
  rw [List.zip_cons_cons, List.filter_cons]
  split <;> rfl

theorem foldlM_kept (vs acc : List Value) :
    (vs.foldlM (fun acc v => do if (← f v).truthy then pure (v :: acc) else pure acc) acc) =
      (do pure ((kept vs (← vs.mapM f)).reverse ++ acc)) := by
  induction vs generalizing acc with
  | nil => rfl
  | cons v vs ih =>
    rw [List.foldlM_cons, List.mapM_cons]
    simp only [bind_assoc, pure_bind, kept_cons]
    refine bind_congr fun w => ?_
    split
    · simp only [pure_bind, ih, List.reverse_cons, List.append_assoc, List.singleton_append]
    · simp only [pure_bind, ih]

theorem filterItems_eq (items : Items) :
    filterItems f items = (do pure (.list (kept items.toList (← items.toList.mapM f)))) := by
  rw [filterItems, foldItems_eq, foldlM_kept]
  simp only [bind_assoc, pure_bind, List.append_nil, List.reverse_reverse]

end Results

/-! ## Reduce -/

theorem foldlM_some (f : Value → Value → Eval Value) (vs : List Value) (a : Value) :
    (vs.foldlM (fun (acc : Option Value) v =>
      match acc with
      | none => pure (some v)
      | some a => do pure (some (← f a v))) (some a)) = (do pure (some (← vs.foldlM f a))) := by
  induction vs generalizing a with
  | nil => rfl
  | cons v vs ih => simp only [List.foldlM_cons, bind_assoc, pure_bind, ih]

theorem reduceItems_eq (f : Value → Value → Eval Value) (items : Items) :
    reduceItems f items =
      match items.toList with
      | [] => pure none
      | v :: vs => (do pure (some (← vs.foldlM f v))) := by
  rw [reduceItems, foldItems_eq]
  cases items.toList with
  | nil => rfl
  | cons v vs =>
    rw [List.foldlM_cons, pure_bind]
    exact foldlM_some f vs v

end Eval

end ExprLang
