import Mathlib.Data.List.Forall2
import ExprLang.Value.Text
import ExprLang.Proofs.Evaluation.Keeping

/-!
# Equality of values

Functions are compared by their identities. This is enough as long as no two functions share one,
which evaluation keeps so: whatever is in scope, a function in it is the one that was made with its
identity.

Among such values, those without floats are equal only if they are the same. So equality is an
equivalence there, and nothing that is made of equal values can tell them apart. With floats this
fails at both ends: a float that is no number is not equal to itself, and an integer equals a float
of another type and text.
-/

namespace ExprLang

namespace Value

/-! ## Functions and their identities -/

/-- Every function in a value is the one that was made with its identity. -/
inductive Declared (ds : Declarations) : Value → Prop
  | function {i : Nat} {params : List Bytes} {body : Expr} (h : ds[i]? = some (params, body)) :
    Declared ds (.function i params body)
  | list {items : List Value} (h : ∀ v ∈ items, Declared ds v) : Declared ds (.list items)
  | plain {v : Value} (h : v.isPlain = true) : Declared ds v

theorem declared_list {ds : Declarations} {vs : List Value} :
    (Value.list vs).Declared ds ↔ ∀ v ∈ vs, v.Declared ds := by
  refine ⟨fun h => ?_, .list⟩
  cases h with
  | list h => exact h
  | plain h => cases h

theorem Declared.mono {ds ks : Declarations} {v : Value} (hk : ds <+: ks) (h : v.Declared ds) :
    v.Declared ks := by
  induction h with
  | function h =>
    obtain ⟨hi, hfound⟩ := List.getElem?_eq_some_iff.mp h
    exact .function ((List.prefix_iff_getElem?.mp hk _ hi).trans (congrArg some hfound))
  | list _ ih => exact .list ih
  | plain h => exact .plain h

theorem lasting_declared : Lasting Declared where
  mono := Declared.mono
  plain := .plain
  function _ _ _ := .function List.getElem?_concat_length
  list := declared_list

/-! ## Values without floats -/

mutual

/-- No float, and no list with one in it. -/
def isFloatFree : Value → Bool
  | .float _ => false
  | .list items => areFloatFree items
  | _ => true

def areFloatFree : List Value → Bool
  | [] => true
  | v :: vs => v.isFloatFree && areFloatFree vs

end

theorem areFloatFree_iff (vs : List Value) :
    areFloatFree vs = true ↔ ∀ v ∈ vs, v.isFloatFree = true := by
  induction vs with
  | nil => simp [areFloatFree]
  | cons v vs ih => rw [areFloatFree, Bool.and_eq_true, ih, List.forall_mem_cons]

/-- A value without floats, in lists of any depth. -/
structure Exact (ds : Declarations) (v : Value) : Prop where
  declared : v.Declared ds
  isFloatFree : v.isFloatFree = true

variable {ds : Declarations}

theorem exact_list {vs : List Value} : (Value.list vs).Exact ds ↔ ∀ v ∈ vs, v.Exact ds := by
  constructor
  · intro h v hv
    exact ⟨declared_list.mp h.declared v hv, (areFloatFree_iff vs).mp h.isFloatFree v hv⟩
  · intro h
    exact ⟨declared_list.mpr fun v hv => (h v hv).declared,
      (areFloatFree_iff vs).mpr fun v hv => (h v hv).isFloatFree⟩

/-! ## Equal values -/

theorem equalsAll_iff {vs ws : List Value}
    (h : ∀ v ∈ vs, ∀ w ∈ ws, (v.equals w = true ↔ v = w)) :
    equalsAll vs ws = true ↔ vs = ws := by
  induction vs generalizing ws with
  | nil => cases ws <;> simp [equalsAll]
  | cons v vs ih =>
    cases ws with
    | nil => simp [equalsAll]
    | cons w ws =>
      have hhead := h v List.mem_cons_self w List.mem_cons_self
      have htail : equalsAll vs ws = true ↔ vs = ws := ih fun v hv w hw =>
        h v (List.mem_cons_of_mem _ hv) w (List.mem_cons_of_mem _ hw)
      rw [equalsAll, Bool.and_eq_true, hhead, htail, List.cons.injEq]

theorem equals_iff_of_isPlain {v w : Value} (hplain : v.isPlain = true)
    (hv : v.isFloatFree = true) (hw : w.isFloatFree = true) : v.equals w = true ↔ v = w := by
  cases v with
  | list | function | absent | foreign => cases hplain
  | float => cases hv
  | int n =>
    cases w with
    | float => cases hw
    | _ => simp [equals]
  | _ => cases w <;> simp [equals]

/-- Equality finds the same value and no other. -/
theorem Exact.equals_iff {v w : Value} (hv : v.Exact ds) (hw : w.Exact ds) :
    v.equals w = true ↔ v = w := by
  obtain ⟨hdeclared, hfree⟩ := hv
  induction hdeclared generalizing w with
  | @function i params body hi =>
    cases w with
    | function j =>
      have hj := hw.declared
      simp only [equals, beq_iff_eq, function.injEq]
      refine ⟨?_, fun h => h.1⟩
      rintro rfl
      cases hj with
      | function hj =>
        cases hi.symm.trans hj
        exact ⟨rfl, rfl, rfl⟩
      | plain h => cases h
    | _ => simp [equals]
  | @list vs _ ih =>
    cases w with
    | list ws =>
      have hvs := (areFloatFree_iff vs).mp hfree
      have hws := exact_list.mp hw
      rw [equals, equalsAll_iff fun v hv w hw => ih v hv (hws w hw) (hvs v hv), list.injEq]
    | _ => simp [equals]
  | plain hplain => exact equals_iff_of_isPlain hplain hfree hw.isFloatFree

theorem Exact.equals_self {v : Value} (hv : v.Exact ds) : v.equals v = true :=
  (hv.equals_iff hv).mpr rfl

/-! ## What can be made of them -/

theorem isFloatFree_spanList (start : Int64) (count : Nat) :
    ∀ v ∈ Items.spanList start count, v.isFloatFree = true := by
  induction count generalizing start with
  | zero => exact List.forall_mem_nil _
  | succ count ih => exact List.forall_mem_cons.mpr ⟨rfl, ih (start + 1)⟩

theorem isFloatFree_items {v : Value} (hv : v.isFloatFree = true) {items : Items}
    (h : v.items? = some items) : ∀ item ∈ items.toList, item.isFloatFree = true := by
  cases v with
  | list vs =>
    cases h
    exact (areFloatFree_iff vs).mp hv
  | range start stop =>
    cases h
    exact isFloatFree_spanList _ _
  | string s =>
    cases h
    exact List.forall_mem_map.mpr fun c _ => rfl
  | _ => cases h

/-- The items of such a value are such values. -/
theorem Exact.items {v : Value} (hv : v.Exact ds) {items : Items} (h : v.items? = some items) :
    ∀ item ∈ items.toList, item.Exact ds := fun item hitem =>
  ⟨lasting_declared.items hv.declared h item hitem, isFloatFree_items hv.isFloatFree h item hitem⟩

theorem Exact.append {vs ws : List Value} (hvs : (Value.list vs).Exact ds)
    (hws : (Value.list ws).Exact ds) : (Value.list (vs ++ ws)).Exact ds :=
  exact_list.mpr (List.forall_mem_append.mpr ⟨exact_list.mp hvs, exact_list.mp hws⟩)

end Value

/-- Items that are equal one by one. -/
def Items.Equal (a b : Items) : Prop :=
  List.Forall₂ (fun v w => Value.equals v w = true) a.toList b.toList

theorem Value.Exact.items_equal {ds : Declarations} {v : Value} (hv : v.Exact ds) :
    Option.Rel Items.Equal v.items? v.items? := by
  cases hitems : v.items? with
  | none => exact .none
  | some items =>
    exact .some (List.forall₂_same.mpr fun item hitem => (hv.items hitems item hitem).equals_self)

/-- Equality is an equivalence on the values without floats. Equal ones have the same type, truth
and text and the same number of items, equal one by one, and can stand for each other when lists are
joined. -/
theorem equality_is_congruence (ds : Declarations) :
    Equivalence (fun v w : { v : Value // v.Exact ds } => v.1.equals w.1 = true) ∧
    (∀ v w : Value, v.Exact ds → w.Exact ds → v.equals w = true →
      v.typeName = w.typeName ∧ v.truthy = w.truthy ∧ v.text = w.text ∧
        Option.Rel Items.Equal v.items? w.items?) ∧
    ∀ vs vs' ws ws' : List Value, (Value.list vs).Exact ds → (Value.list vs').Exact ds →
      (Value.list ws).Exact ds → (Value.list ws').Exact ds →
      (Value.list vs).equals (.list vs') = true → (Value.list ws).equals (.list ws') = true →
      ∃ u u' : Value, (Value.list vs).operate .plus (.list ws) = .ok u ∧
        (Value.list vs').operate .plus (.list ws') = .ok u' ∧ u.equals u' = true := by
  refine ⟨⟨fun v => v.2.equals_self, ?_, ?_⟩, ?_, ?_⟩
  · rintro ⟨v, hv⟩ ⟨w, hw⟩ h
    obtain rfl := (hv.equals_iff hw).mp h
    exact h
  · rintro ⟨u, hu⟩ ⟨v, hv⟩ ⟨w, hw⟩ huv hvw
    obtain rfl := (hu.equals_iff hv).mp huv
    exact hvw
  · intro v w hv hw h
    obtain rfl := (hv.equals_iff hw).mp h
    exact ⟨rfl, rfl, rfl, hv.items_equal⟩
  · intro vs vs' ws ws' hvs hvs' hws hws' hv hw
    obtain rfl := Value.list.inj ((hvs.equals_iff hvs').mp hv)
    obtain rfl := Value.list.inj ((hws.equals_iff hws').mp hw)
    exact ⟨.list (vs ++ ws), _, rfl, rfl, (hvs.append hws).equals_self⟩

/-- A function, a builtin and a range in a list inside of a list, and a list of other values. -/
theorem equality_is_congruence_nested :
    let ds : Declarations := [([bytes "x"], .variable (bytes "x") 1)]
    let vs := [Value.list [.function 0 [bytes "x"] (.variable (bytes "x") 1),
      .builtin .map ⟨0, false⟩, .range 1 3]]
    let ws := [Value.string (bytes "é"), .bool true, .null]
    ((Value.list vs).Exact ds ∧ (Value.list ws).Exact ds ∧
      (Value.list vs).equals (.list vs) = true ∧ (Value.list ws).equals (.list ws) = true) ∧
    Option.Rel Items.Equal (Value.list vs).items? (Value.list vs).items? ∧
    ∃ u u' : Value, (Value.list vs).operate .plus (.list ws) = .ok u ∧
      (Value.list vs).operate .plus (.list ws) = .ok u' ∧ u.equals u' = true := by
  intro ds vs ws
  have hvs : (Value.list vs).Exact ds := by
    refine ⟨Value.declared_list.mpr (List.forall_mem_singleton.mpr ?_), by decide⟩
    rw [Value.declared_list]
    simp only [List.forall_mem_cons]
    exact ⟨.function rfl, .plain rfl, .plain rfl, List.forall_mem_nil _⟩
  have hws : (Value.list ws).Exact ds := by
    refine ⟨Value.declared_list.mpr ?_, by decide⟩
    simp only [ws, List.forall_mem_cons]
    exact ⟨.plain rfl, .plain rfl, .plain rfl, List.forall_mem_nil _⟩
  have hv : (Value.list vs).equals (.list vs) = true := by decide
  have hw : (Value.list ws).equals (.list ws) = true := by decide
  obtain ⟨-, hsame, hjoin⟩ := equality_is_congruence ds
  exact ⟨⟨hvs, hws, hv, hw⟩, (hsame _ _ hvs hvs hv).2.2.2,
    hjoin vs vs ws ws hvs hvs hws hws hv hw⟩

end ExprLang
