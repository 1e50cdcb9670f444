import Mathlib.Tactic.Ring
import ExprLang.Number.Shortest

/-!
# Rounding and the shortest decimal

Rounding a quotient depends on its value only, and a float's own value is rounded to that float. So
the search for the shortest decimal always ends with one that reads back.
-/

namespace ExprLang.Number

/-! ## Rounding to an integer -/

theorem divEven_mul_right (num den : Nat) {c : Nat} (hc : 0 < c) :
    divEven (num * c) (den * c) = divEven num den := by
  have hq : num * c / (den * c) = num / den := Nat.mul_div_mul_right num den hc
  have hr : num * c % (den * c) = num % den * c := Nat.mul_mod_mul_right c num den
  have hlow : 2 * (num % den * c) < den * c ↔ 2 * (num % den) < den := by
    rw [← Nat.mul_assoc]
    exact Nat.mul_lt_mul_right hc
  have hhigh : den * c < 2 * (num % den * c) ↔ den < 2 * (num % den) := by
    rw [← Nat.mul_assoc]
    exact Nat.mul_lt_mul_right hc
  simp only [divEven, hq, hr, hlow, hhigh]

theorem divEven_mul_self (k : Nat) {den : Nat} (h : 0 < den) : divEven (k * den) den = k := by
  simp only [divEven, Nat.mul_div_cancel k h, Nat.mul_mod_left]
  rw [if_pos (by omega)]

theorem divEven_eq (num den : Nat) :
    divEven num den = num / den ∨ divEven num den = num / den + 1 := by
  simp only [divEven]
  split
  · exact Or.inl rfl
  · split
    · exact Or.inr rfl
    · omega

/-! ## Rounding to a float -/

theorem natPow_eq (b n : Nat) : Nat.pow b n = b ^ n := rfl

theorem natPow_pos {b : Nat} (h : 0 < b) (n : Nat) : 0 < Nat.pow b n := Nat.pow_pos h

theorem natPow_ten (n : Nat) : Nat.pow 10 n = Nat.pow 2 n * Nat.pow 5 n := Nat.mul_pow 2 5 n

theorem nearestBits_mul_right (num den : Nat) {c : Nat} (hc : 0 < c) :
    nearestBits (num * c) (den * c) = nearestBits num den := by
  unfold nearestBits
  generalize Nat.pow 2 1074 = one
  have hunits : num * c * one = num * one * c := Nat.mul_right_comm _ _ _
  have hden : ∀ n, den * c * Nat.pow 2 n = den * Nat.pow 2 n * c := fun n =>
    Nat.mul_right_comm _ _ _
  simp only [hunits, Nat.mul_div_mul_right _ _ hc, hden, divEven_mul_right _ _ hc]

theorem nearestBits_zero (den : Nat) : nearestBits 0 den = 0 := by
  unfold nearestBits
  generalize Nat.pow 2 1074 = one
  simp [divEven]

theorem log2_mul_pow {m k : Nat} (n : Nat) (hl : 2 ^ k ≤ m) (hu : m < 2 ^ (k + 1)) :
    Nat.log2 (m * 2 ^ n) = k + n := by
  have hpos : 0 < 2 ^ n := Nat.two_pow_pos n
  have hm : 0 < m := Nat.lt_of_lt_of_le (Nat.two_pow_pos k) hl
  refine (Nat.log2_eq_iff (Nat.mul_ne_zero (by omega) (by omega))).2 ⟨?_, ?_⟩
  · rw [Nat.pow_add]
    exact Nat.mul_le_mul_right _ hl
  · rw [show k + n + 1 = k + 1 + n by omega, Nat.pow_add]
    exact Nat.mul_lt_mul_of_pos_right hu hpos

theorem unitsOf_eq (bits : Nat) : unitsOf bits =
    if bits / 2 ^ 52 = 0 then bits % 2 ^ 52
    else (2 ^ 52 + bits % 2 ^ 52) * 2 ^ (bits / 2 ^ 52 - 1) := by
  unfold unitsOf
  generalize h : Nat.pow 2 52 = hidden
  have h' : 2 ^ 52 = hidden := h
  rw [h']
  rfl

/-- Bits are the number of dropped bits and the kept bits of the units they stand for. -/
theorem bits_of_units (bits : Nat) : ∃ kept,
    unitsOf bits = kept * 2 ^ (Nat.log2 (unitsOf bits) - 52) ∧
    (Nat.log2 (unitsOf bits) - 52) * 2 ^ 52 + kept = bits := by
  have hsplit := Nat.div_add_mod bits (2 ^ 52)
  have hmod := Nat.mod_lt bits (Nat.two_pow_pos 52)
  have hunits := unitsOf_eq bits
  by_cases he : bits / 2 ^ 52 = 0
  · rw [if_pos he] at hunits
    have hlog : Nat.log2 (unitsOf bits) - 52 = 0 := by
      rw [hunits]
      by_cases hz : bits % 2 ^ 52 = 0
      · rw [hz]
        rfl
      · have hl := (Nat.log2_lt hz).2 hmod
        omega
    refine ⟨bits, ?_, ?_⟩
    · rw [hlog, hunits, pow_zero]
      omega
    · rw [hlog, Nat.zero_mul, Nat.zero_add]
  · rw [if_neg he] at hunits
    have hlog : Nat.log2 (unitsOf bits) - 52 = bits / 2 ^ 52 - 1 := by
      have hl : 2 ^ 52 ≤ 2 ^ 52 + bits % 2 ^ 52 := by omega
      have hu : 2 ^ 52 + bits % 2 ^ 52 < 2 ^ (52 + 1) := by omega
      rw [hunits, log2_mul_pow _ hl hu]
      omega
    refine ⟨2 ^ 52 + bits % 2 ^ 52, ?_, ?_⟩
    · rw [hlog, hunits]
    · rw [hlog]
      omega

/-- The value of a float is rounded to that float. -/
theorem nearestBits_unitsOf (bits : Nat) : nearestBits (unitsOf bits) (Nat.pow 2 1074) = bits := by
  obtain ⟨kept, hkept, hbits⟩ := bits_of_units bits
  have hpos := natPow_pos (by omega : 0 < 2) 1074
  unfold nearestBits
  generalize Nat.pow 2 1074 = one at hpos ⊢
  simp only [Nat.mul_div_cancel _ hpos]
  generalize Nat.log2 (unitsOf bits) - 52 = dropped at hkept hbits ⊢
  have hunits : unitsOf bits * one = kept * (one * Nat.pow 2 dropped) := by
    rw [hkept, natPow_eq]
    ring
  rw [hunits, divEven_mul_self kept (Nat.mul_pos hpos (natPow_pos (by omega) dropped)), natPow_eq,
    hbits]

/-! ## The search -/

theorem exact_nearestBits (bits : Nat) :
    (⟨unitsOf bits * Nat.pow 5 1074, -1074⟩ : Decimal).nearestBits = bits := by
  have hexp : (-1074 : Int) = .negSucc 1073 := rfl
  rw [hexp, Decimal.nearestBits]
  dsimp only
  rw [show 1073 + 1 = 1074 by rfl, natPow_ten,
    nearestBits_mul_right _ _ (natPow_pos (by omega) 1074),
    nearestBits_unitsOf]

theorem grid_nearestBits {bits num den : Nat} {exponent : Int} {d : Decimal}
    (h : (match decide ((⟨num / den, exponent⟩ : Decimal).nearestBits = bits),
        decide ((⟨num / den + 1, exponent⟩ : Decimal).nearestBits = bits) with
      | true, true => some (⟨divEven num den, exponent⟩ : Decimal)
      | true, false => some ⟨num / den, exponent⟩
      | false, true => some ⟨num / den + 1, exponent⟩
      | false, false => none) = some d) : d.nearestBits = bits := by
  split at h
  · rename_i hb ha
    cases h
    rcases divEven_eq num den with hd | hd
    · rw [hd]
      exact of_decide_eq_true hb
    · rw [hd]
      exact of_decide_eq_true ha
  · rename_i hb _
    cases h
    exact of_decide_eq_true hb
  · rename_i _ ha
    cases h
    exact of_decide_eq_true ha
  · cases h

theorem onGrid?_nearestBits {bits : Nat} {exponent : Int} {d : Decimal}
    (h : onGrid? bits exponent = some d) : d.nearestBits = bits := by
  unfold onGrid? at h
  generalize Nat.pow 2 1074 = one at h
  dsimp only at h
  exact grid_nearestBits h

theorem coarsest_nearestBits (bits fuel : Nat) (exponent : Int) :
    (coarsest bits fuel exponent).nearestBits = bits := by
  induction fuel generalizing exponent with
  | zero => exact exact_nearestBits bits
  | succ fuel ih =>
    simp only [coarsest]
    split
    · rename_i hd
      exact onGrid?_nearestBits hd
    · exact ih (exponent - 1)

/-- The shortest decimal of a magnitude reads back as the magnitude. -/
theorem shortest_nearestBits (bits : Nat) : (shortest bits).nearestBits = bits := by
  simp only [shortest]
  split
  · rename_i h
    rw [h]
    exact nearestBits_zero 1
  · exact coarsest_nearestBits bits _ _

end ExprLang.Number
