import Mathlib
import ExprLang.Number.Shortest

/-!
# Floats and their bits

A float keeps the bits it was made from unless they are those of an infinity or of no number. So a
magnitude below infinity is the magnitude of exactly one float without a sign.
-/

namespace ExprLang.Number

open Float.Model Float.Model.UnpackedFloat

theorem infinityBits_eq : infinityBits = 2047 * 2 ^ 52 := rfl

theorem toNat_unpackExponent (b : BitVec 64) :
    (@unpackExponent Format.binary64 b).toNat = b.toNat / 2 ^ 52 % 2 ^ 11 := by
  rw [← Nat.shiftRight_eq_div_pow]
  exact BitVec.extractLsb_toNat 62 52 b

theorem toBits_ofBits {u : UInt64} (h : u.toNat / 2 ^ 52 % 2 ^ 11 ≠ 2047) :
    (Float.ofBits u).toBits = u := by
  have hexponent : @unpackExponent Format.binary64 u.toBitVec ≠ -1#11 := by
    intro hc
    have hn := toNat_unpackExponent u.toBitVec
    rw [hc] at hn
    exact h hn.symm
  have hnan : ¬@isNaNBits Format.binary64 u.toBitVec = true := by
    simp only [isNaNBits, decide_eq_true_eq]
    exact fun hc => hexponent hc.1
  have hpack := @pack_unpack Format.binary64 u.toBitVec (by decide)
  rw [if_neg hnan] at hpack
  exact congrArg UInt64.ofBitVec hpack

/-- Finite and without a sign. -/
def isPlain (x : Float) : Bool := !isNegative x && decide (magnitudeBits x < infinityBits)

theorem isPlain_iff {x : Float} : isPlain x = true ↔ x.toBits.toNat < infinityBits := by
  have h63 : Nat.pow 2 63 = 2 ^ 63 := rfl
  simp only [isPlain, isNegative, magnitudeBits, infinityBits_eq, h63, Bool.and_eq_true,
    Bool.not_eq_true', decide_eq_false_iff_not, decide_eq_true_eq]
  omega

theorem magnitudeBits_of_isPlain {x : Float} (h : isPlain x = true) :
    magnitudeBits x = x.toBits.toNat := by
  have hlt := isPlain_iff.mp h
  have h63 : Nat.pow 2 63 = 2 ^ 63 := rfl
  rw [infinityBits_eq] at hlt
  simp only [magnitudeBits, h63]
  omega

theorem toBits_ofMagnitude {bits : Nat} (h : bits < infinityBits) :
    (ofMagnitude false bits).toBits.toNat = bits := by
  rw [infinityBits_eq] at h
  have hu : (UInt64.ofNat bits).toNat = bits := by
    rw [UInt64.toNat_ofNat']
    omega
  simp only [ofMagnitude, Bool.false_eq_true, if_false]
  rw [toBits_ofBits (by rw [hu]; omega), hu]

theorem isPlain_ofMagnitude {bits : Nat} (h : bits < infinityBits) :
    isPlain (ofMagnitude false bits) = true := by
  rw [isPlain_iff, toBits_ofMagnitude h]
  exact h

/-- A plain float is determined by its magnitude. -/
theorem ofMagnitude_magnitudeBits {x : Float} (h : isPlain x = true) :
    ofMagnitude false (magnitudeBits x) = x := by
  rw [magnitudeBits_of_isPlain h]
  simp only [ofMagnitude, Bool.false_eq_true, if_false, UInt64.ofNat_toNat]
  exact Float.ofBits_toBits x

end ExprLang.Number
