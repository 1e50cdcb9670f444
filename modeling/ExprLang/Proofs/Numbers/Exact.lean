import ExprLang.Number.Integer
import Mathlib.Tactic.Ring

/-!
# Checked arithmetic is exact

An operation on integers gives the exact result if it has 64 bits and nothing otherwise. The checks
look at the wrapped result only: at its sign, or at what it gives when it is divided back.
-/

namespace ExprLang.Number

/-- From `-2 ^ 63` to `2 ^ 63 - 1`. -/
def Fits (n : Int) : Prop := -9223372036854775808 ≤ n ∧ n ≤ 9223372036854775807

instance (n : Int) : Decidable (Fits n) := inferInstanceAs (Decidable (_ ∧ _))

/-- The 64-bit integer equal to an integer. -/
def fit? (n : Int) : Option Int64 := if Fits n then some (Int64.ofInt n) else none

theorem fits_toInt (x : Int64) : Fits x.toInt := by
  have hlow := x.le_toInt
  have hhigh := x.toInt_lt
  constructor <;> omega

theorem toInt_ofInt {n : Int} (h : Fits n) : (Int64.ofInt n).toInt = n :=
  Int64.toInt_ofInt_of_le (by have := h.1; omega) (by have := h.2; omega)

theorem fit?_eq_some_iff {n : Int} {r : Int64} : fit? n = some r ↔ r.toInt = n := by
  unfold fit?
  constructor
  · intro h
    split at h
    · rename_i hn
      obtain rfl := Option.some.inj h
      exact toInt_ofInt hn
    · cases h
  · rintro rfl
    rw [if_pos (fits_toInt r), Int64.ofInt_toInt]

theorem fit?_eq_none_iff {n : Int} : fit? n = none ↔ ¬ Fits n := by
  unfold fit?
  split <;> simp_all

/-- A check that is right about what does not fit, for a result that is right if it fits. -/
theorem checked_eq_fit? {n : Int} {r : Int64} {p : Prop} [Decidable p] (hp : p ↔ ¬ Fits n)
    (hr : Fits n → r.toInt = n) : (if p then none else some r) = fit? n := by
  by_cases hn : Fits n
  · rw [if_neg fun h => hp.mp h hn, fit?_eq_some_iff.mpr (hr hn)]
  · rw [if_pos (hp.mpr hn), fit?_eq_none_iff.mpr hn]

/-! ## Wrapped results -/

/-- A wrapped result is the exact one but for a multiple of `2 ^ 64`. -/
theorem exists_bmod_eq (n : Int) : ∃ k : Int, n = n.bmod (2 ^ 64) + 18446744073709551616 * k :=
  ⟨n.bdiv (2 ^ 64), (Int.bmod_add_bdiv n (2 ^ 64)).symm⟩

theorem bmod_of_fits {n : Int} (h : Fits n) : n.bmod (2 ^ 64) = n := by
  obtain ⟨hlow, hhigh⟩ := h
  exact Int.bmod_eq_of_le (by omega) (by omega)

theorem nonneg_iff {x : Int64} : nonneg x = true ↔ 0 ≤ x.toInt := by
  rw [nonneg, decide_eq_true_eq, Int64.le_iff_toInt_le]
  rfl

theorem nonneg_eq_iff {x y : Int64} : nonneg x = nonneg y ↔ (0 ≤ x.toInt ↔ 0 ≤ y.toInt) := by
  rw [Bool.eq_iff_iff, nonneg_iff, nonneg_iff]

/-! ## Operations -/

theorem add?_eq (x y : Int64) : add? x y = fit? (x.toInt + y.toInt) := by
  refine checked_eq_fit? ?_ fun h => by rw [Int64.toInt_add, bmod_of_fits h]
  obtain ⟨k, hk⟩ := exists_bmod_eq (x.toInt + y.toInt)
  rw [← Int64.toInt_add] at hk
  obtain ⟨hx, hx'⟩ := fits_toInt x
  obtain ⟨hy, hy'⟩ := fits_toInt y
  obtain ⟨hs, hs'⟩ := fits_toInt (x + y)
  rw [Ne, nonneg_eq_iff, nonneg_eq_iff, Fits]
  omega

theorem sub?_eq (x y : Int64) : sub? x y = fit? (x.toInt - y.toInt) := by
  refine checked_eq_fit? ?_ fun h => by rw [Int64.toInt_sub, bmod_of_fits h]
  obtain ⟨k, hk⟩ := exists_bmod_eq (x.toInt - y.toInt)
  rw [← Int64.toInt_sub] at hk
  obtain ⟨hx, hx'⟩ := fits_toInt x
  obtain ⟨hy, hy'⟩ := fits_toInt y
  obtain ⟨hs, hs'⟩ := fits_toInt (x - y)
  rw [Ne, Ne, nonneg_eq_iff, nonneg_eq_iff, Fits]
  omega

theorem toInt_minValue : Int64.minValue.toInt = -9223372036854775808 := rfl

theorem neg?_eq (x : Int64) : neg? x = fit? (-x.toInt) := by
  refine checked_eq_fit? ?_ fun h => by rw [Int64.toInt_neg, bmod_of_fits h]
  have hx := fits_toInt x
  rw [← Int64.toInt_inj, toInt_minValue]
  unfold Fits at hx ⊢
  omega

/-- A division wraps for the least integer and `-1` only. -/
theorem toInt_div {p y : Int64} (h : ¬ (p = Int64.minValue ∧ y = -1)) :
    (p / y).toInt = p.toInt.tdiv y.toInt := by
  by_cases hp : p = Int64.minValue
  · exact Int64.toInt_div_of_ne_right p y fun hy => h ⟨hp, hy⟩
  · exact Int64.toInt_div_of_ne_left p y hp

section Product

variable {x y : Int64}

/-- A product that fits gives the factor when it is divided back. -/
theorem mul_div_of_fits (hy : y ≠ 0) (h : Fits (x.toInt * y.toInt)) : x * y / y = x := by
  have hproduct : (x * y).toInt = x.toInt * y.toInt := by rw [Int64.toInt_mul, bmod_of_fits h]
  have hne : ¬ (x * y = Int64.minValue ∧ y = -1) := by
    rintro ⟨hmin, rfl⟩
    have hx := fits_toInt x
    rw [hmin, toInt_minValue, show (-1 : Int64).toInt = -1 from rfl] at hproduct
    unfold Fits at hx
    omega
  have hy' : y.toInt ≠ 0 := fun h0 => hy (Int64.toInt_inj.mp h0)
  rw [← Int64.toInt_inj, toInt_div hne, hproduct, Int.mul_tdiv_cancel _ hy']

/-- A product that gives the factor when it is divided back has not wrapped: the remainder of the
division is smaller than what is lost by wrapping. -/
theorem fits_of_mul_div (hy : y ≠ 0) (hne : ¬ (x * y = Int64.minValue ∧ y = -1))
    (h : x * y / y = x) : Fits (x.toInt * y.toInt) := by
  obtain ⟨k, hk⟩ := exists_bmod_eq (x.toInt * y.toInt)
  rw [← Int64.toInt_mul] at hk
  have hquotient : (x * y).toInt.tdiv y.toInt = x.toInt := by rw [← toInt_div hne, h]
  have hdivide := Int.mul_tdiv_add_tmod (x * y).toInt y.toInt
  rw [hquotient, Int.mul_comm] at hdivide
  have hpos : 0 < y.toInt.natAbs :=
    Int.natAbs_pos.mpr fun h0 => hy (Int64.toInt_inj.mp h0)
  have hremainder : ((x * y).toInt.tmod y.toInt).natAbs < y.toInt.natAbs := by
    rw [Int.natAbs_tmod]
    exact Nat.mod_lt _ hpos
  have hy' := fits_toInt y
  have hp := fits_toInt (x * y)
  unfold Fits at hy' hp ⊢
  omega

end Product

theorem mul?_eq (x y : Int64) : mul? x y = fit? (x.toInt * y.toInt) := by
  unfold mul?
  split
  · rename_i h0
    refine (fit?_eq_some_iff.mpr ?_).symm
    rcases h0 with rfl | rfl <;> simp
  · rename_i h0
    obtain ⟨hx, hy⟩ := not_or.mp h0
    refine checked_eq_fit? ⟨fun h hfits => ?_, fun h => ?_⟩
      fun h => by rw [Int64.toInt_mul, bmod_of_fits h]
    · rcases h with h | ⟨rfl, rfl⟩ | ⟨rfl, rfl⟩
      · exact h (mul_div_of_fits hy hfits)
      · exact absurd hfits (by decide)
      · exact absurd hfits (by decide)
    · by_contra hnone
      simp only [not_or, not_not] at hnone
      obtain ⟨hdivide, -, hleast⟩ := hnone
      refine h (fits_of_mul_div hy ?_ hdivide)
      rintro ⟨hmin, rfl⟩
      rw [hmin] at hdivide
      exact hleast ⟨rfl, hdivide.symm.trans (by decide)⟩

end ExprLang.Number
