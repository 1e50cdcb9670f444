import ExprLang.Number.Numeral
import ExprLang.Proofs.Numbers.Bits
import ExprLang.Proofs.Numbers.Rounding

/-!
# Numerals read back

The text of a nonnegative integer consists of digits and reads back as that integer. The text of a
plain float consists of digits on both sides of a point and reads back as that float.
-/

namespace ExprLang.Number

/-! ## Digits -/

/-- Digits, at least one. -/
def isNumeral (s : Bytes) : Bool := !s.isEmpty && s.all isDigit

theorem isDigit_iff {b : UInt8} : isDigit b = true ↔ 48 ≤ b.toNat ∧ b.toNat ≤ 57 := by
  have h0 : byte '0' = 48 := rfl
  have h9 : byte '9' = 57 := rfl
  simp only [isDigit, h0, h9, Bool.and_eq_true, decide_eq_true_eq, UInt8.le_iff_toNat_le]
  rfl

theorem ne_of_isDigit {b c : UInt8} (hb : isDigit b = true) (hc : isDigit c = false) : b ≠ c := by
  rintro rfl
  rw [hb] at hc
  cases hc

theorem isNumeral_iff {s : Bytes} :
    isNumeral s = true ↔ s ≠ [] ∧ ∀ b ∈ s, isDigit b = true := by
  simp only [isNumeral, Bool.and_eq_true, Bool.not_eq_true', List.isEmpty_eq_false_iff,
    List.all_eq_true]

theorem exists_cons_of_isNumeral {s : Bytes} (h : isNumeral s = true) :
    ∃ b t, s = b :: t ∧ isDigit b = true := by
  obtain ⟨hne, hall⟩ := isNumeral_iff.mp h
  cases s with
  | nil => exact absurd rfl hne
  | cons b t => exact ⟨b, t, rfl, hall b List.mem_cons_self⟩

theorem splitSign_digit {b : UInt8} (hb : isDigit b = true) (s : Bytes) :
    splitSign (b :: s) = (false, b :: s) := by
  have hminus := ne_of_isDigit hb (by decide : isDigit (byte '-') = false)
  have hplus := ne_of_isDigit hb (by decide : isDigit (byte '+') = false)
  simp only [splitSign, if_neg hminus, if_neg hplus]

/-- Reading digits from what was read before. -/
theorem foldl_digits (acc : Nat) (s : Bytes) :
    s.foldl (fun n b => n * 10 + (b.toNat - 48)) acc = acc * 10 ^ s.length + ofDigits s := by
  induction s generalizing acc with
  | nil => simp [ofDigits]
  | cons b s ih =>
    simp only [ofDigits, List.foldl_cons, List.length_cons]
    rw [ih, ih (0 * 10 + (b.toNat - 48))]
    ring

theorem ofDigits_append (s t : Bytes) :
    ofDigits (s ++ t) = ofDigits s * 10 ^ t.length + ofDigits t := by
  rw [ofDigits, List.foldl_append, foldl_digits]
  rfl

theorem ofDigits_zeros (k : Nat) : ofDigits (List.replicate k (byte '0')) = 0 := by
  induction k with
  | zero => rfl
  | succ k ih =>
    rw [List.replicate_succ', ofDigits_append, ih]
    rfl

theorem byte_digitChar {n : Nat} (h : n < 10) : (byte n.digitChar).toNat = 48 + n := by
  revert n
  decide

theorem decimal_eq (n : Nat) : Text.decimal n =
    if n < 10 then [byte n.digitChar] else Text.decimal (n / 10) ++ [byte (n % 10).digitChar] := by
  simp only [Text.decimal]
  rw [Nat.toDigits_eq_if (by omega)]
  split
  · rfl
  · rw [List.map_append]
    rfl

theorem isNumeral_decimal (n : Nat) : isNumeral (Text.decimal n) = true := by
  have hdigit : ∀ m, m < 10 → isDigit (byte m.digitChar) = true := by
    intro m hm
    rw [isDigit_iff, byte_digitChar hm]
    omega
  induction n using Nat.strongRecOn with
  | ind n ih =>
    rw [decimal_eq, isNumeral_iff]
    split
    · rename_i h
      simpa using hdigit n h
    · rename_i h
      have hr := (isNumeral_iff.mp (ih (n / 10) (by omega))).2
      have hd := hdigit (n % 10) (by omega)
      refine ⟨by simp, fun b hb => ?_⟩
      rcases List.mem_append.mp hb with hb | hb
      · exact hr b hb
      · rw [List.mem_singleton.mp hb]
        exact hd

theorem ofDigits_decimal (n : Nat) : ofDigits (Text.decimal n) = n := by
  induction n using Nat.strongRecOn with
  | ind n ih =>
    rw [decimal_eq]
    split
    · rename_i h
      simp only [ofDigits, List.foldl_cons, List.foldl_nil, byte_digitChar h]
      omega
    · rename_i h
      have hd := byte_digitChar (show n % 10 < 10 by omega)
      rw [ofDigits_append, ih (n / 10) (by omega)]
      simp only [ofDigits, List.foldl_cons, List.foldl_nil, hd, List.length_singleton]
      omega

/-! ## Integers -/

theorem readInt?_numeral {ds : Bytes} (h : isNumeral ds = true) :
    readInt? ds = if ofDigits ds < 2 ^ 63 then some (Int64.ofNat (ofDigits ds)) else none := by
  obtain ⟨hne, hall⟩ := isNumeral_iff.mp h
  obtain ⟨b, s, rfl, hb⟩ := exists_cons_of_isNumeral h
  have hd : b :: s ≠ [] ∧ (b :: s).all isDigit = true := ⟨hne, List.all_eq_true.mpr hall⟩
  simp only [readInt?, splitSign_digit hb, if_pos hd]
  rfl

theorem toInt_nonneg {n : Int64} (h : 0 ≤ n) : 0 ≤ n.toInt := by
  simpa using Int64.le_iff_toInt_le.mp h

theorem intText_of_nonneg {n : Int64} (h : 0 ≤ n) :
    intText n = Text.decimal n.toInt.toNat := by
  have hn : n.toInt = .ofNat n.toInt.toNat := (Int.toNat_of_nonneg (toInt_nonneg h)).symm
  rw [intText, hn]
  rfl

theorem isNumeral_intText {n : Int64} (h : 0 ≤ n) : isNumeral (intText n) = true := by
  rw [intText_of_nonneg h]
  exact isNumeral_decimal _

/-- The text of a nonnegative integer reads back. -/
theorem readInt?_intText {n : Int64} (h : 0 ≤ n) : readInt? (intText n) = some n := by
  have h0 := toInt_nonneg h
  have hlt := n.toInt_lt
  rw [readInt?_numeral (isNumeral_intText h), intText_of_nonneg h, ofDigits_decimal,
    if_pos (by omega)]
  refine congrArg some (Int64.toInt_inj.mp ?_)
  rw [Int64.toInt_ofNat_of_lt (by omega)]
  omega

theorem nonneg_of_readInt? {ds : Bytes} {n : Int64} (h : isNumeral ds = true)
    (hr : readInt? ds = some n) : 0 ≤ n := by
  rw [readInt?_numeral h] at hr
  split at hr
  · rename_i hlt
    cases hr
    rw [Int64.le_iff_toInt_le, Int64.toInt_ofNat_of_lt (by omega)]
    simp
  · cases hr

/-! ## Floats -/

/-- The characters of a positional numeral. -/
def isPositional (b : UInt8) : Bool := isDigit b || b == byte '.'

theorem lowerByte_positional {b : UInt8} (h : isPositional b = true) : lowerByte b = b := by
  have hA : (byte 'A').toNat = 65 := rfl
  have hpoint : (byte '.').toNat = 46 := rfl
  have hle : b.toNat ≤ 57 := by
    simp only [isPositional, Bool.or_eq_true, isDigit_iff, beq_iff_eq] at h
    rcases h with h | rfl
    · exact h.2
    · omega
  have hup : ¬ byte 'A' ≤ b := by
    rw [UInt8.le_iff_toNat_le]
    omega
  simp [lowerByte, hup]

theorem positional_ne {b c : UInt8} (hb : isPositional b = true) (hc : isPositional c = false) :
    b ≠ c := by
  rintro rfl
  rw [hb] at hc
  cases hc

theorem magnitude?_positional {s : Bytes} (h : ∀ b ∈ s, isPositional b = true) :
    magnitude? s = decimalNumeral? s := by
  unfold magnitude?
  split
  · rename_i z x c rest
    have hx : isPositional x = true := h x (by simp)
    rw [if_neg]
    rintro ⟨-, hl⟩
    rw [lowerByte_positional hx] at hl
    exact positional_ne hx (by decide) hl
  · rfl

/-- Names and underscores need characters that a positional numeral does not have. -/
theorem readFloat?_positional {b : UInt8} {s : Bytes} (hb : isDigit b = true)
    (h : ∀ c ∈ b :: s, isPositional c = true) :
    readFloat? (b :: s) =
      match decimalNumeral? (b :: s) with
      | some bits => if bits < infinityBits then some (ofMagnitude false bits) else none
      | none => none := by
  have hlower : (b :: s).map lowerByte = b :: s := by
    rw [List.map_congr_left fun c hc => lowerByte_positional (h c hc)]
    exact List.map_id _
  have hname : ∀ c t, isPositional c = false → b :: s ≠ c :: t := by
    intro c t hc heq
    exact positional_ne (h b List.mem_cons_self) hc (List.cons.inj heq).1
  have hinf : ¬ (b :: s = bytes "inf" ∨ b :: s = bytes "infinity") := by
    rintro (heq | heq)
    · exact hname _ _ (by decide) heq
    · exact hname _ _ (by decide) heq
  have hnan : b :: s ≠ bytes "nan" := hname _ _ (by decide)
  have hunder : ∀ c ∈ b :: s, c ≠ byte '_' := fun c hc => positional_ne (h c hc) (by decide)
  have hcontains : ¬ ((b :: s).contains (byte '_') = true ∧ underscoresOk (b :: s) = false) := by
    rintro ⟨hc, -⟩
    exact hunder _ (List.contains_iff_mem.mp hc) rfl
  have hfilter : (b :: s).filter (· ≠ byte '_') = b :: s := by
    rw [List.filter_eq_self]
    intro c hc
    simpa using hunder c hc
  simp only [readFloat?, splitSign_digit hb, hlower]
  rw [if_neg hinf, if_neg hnan, if_neg hcontains, hfilter]
  have hmagnitude := magnitude?_positional h
  generalize decimalNumeral? (b :: s) = r at hmagnitude ⊢
  cases r with
  | none => simp only [hmagnitude]
  | some bits => simp only [hmagnitude]

theorem readMantissa_digits (seenPoint : Bool) (n digits places : Nat) {s : Bytes} (rest : Bytes)
    (h : ∀ b ∈ s, isDigit b = true) :
    readMantissa false seenPoint n digits places (s ++ rest) =
      readMantissa false seenPoint (n * 10 ^ s.length + ofDigits s) (digits + s.length)
        (if seenPoint then places + s.length else places) rest := by
  rw [← foldl_digits]
  induction s generalizing n digits places with
  | nil => cases seenPoint <;> rfl
  | cons b s ih =>
    have hb : digitValue? false b = some (b.toNat - 48) := by
      simp [digitValue?, h b List.mem_cons_self]
    simp only [List.cons_append, readMantissa, hb, List.foldl_cons]
    rw [if_neg (by simp), ih _ _ _ fun c hc => h c (List.mem_cons_of_mem b hc)]
    cases seenPoint
    · simp only [Bool.false_eq_true, if_false, List.length_cons]
      rw [show digits + 1 + s.length = digits + (s.length + 1) by omega]
    · simp only [if_true, List.length_cons]
      rw [show digits + 1 + s.length = digits + (s.length + 1) by omega,
        show places + 1 + s.length = places + (s.length + 1) by omega]

theorem readMantissa_point {ds fs : Bytes} (hd : isNumeral ds = true) (hf : isNumeral fs = true) :
    readMantissa false false 0 0 0 (ds ++ byte '.' :: fs) =
      ⟨ofDigits (ds ++ fs), ds.length + fs.length, fs.length, []⟩ := by
  have hpoint : digitValue? false (byte '.') = none := by decide
  rw [readMantissa_digits _ _ _ _ _ (isNumeral_iff.mp hd).2]
  simp only [readMantissa, hpoint, and_self, if_true, Bool.false_eq_true, if_false]
  have hrest := readMantissa_digits true (0 * 10 ^ ds.length + ofDigits ds) (0 + ds.length) 0 []
    (isNumeral_iff.mp hf).2
  rw [List.append_nil] at hrest
  rw [hrest, ofDigits_append]
  simp only [readMantissa, if_true, Nat.zero_mul, Nat.zero_add]

/-- Digits on both sides of a point. -/
theorem readFloat?_point {ds fs : Bytes} (hd : isNumeral ds = true) (hf : isNumeral fs = true) :
    readFloat? (ds ++ byte '.' :: fs) =
      match decimalBits? ⟨ofDigits (ds ++ fs), ds.length + fs.length, fs.length, []⟩ 0 with
      | some bits => if bits < infinityBits then some (ofMagnitude false bits) else none
      | none => none := by
  have hall : ∀ c ∈ ds ++ byte '.' :: fs, isPositional c = true := by
    intro c hc
    simp only [isPositional, Bool.or_eq_true, beq_iff_eq]
    rcases List.mem_append.mp hc with hc | hc
    · exact Or.inl ((isNumeral_iff.mp hd).2 c hc)
    · rcases List.mem_cons.mp hc with rfl | hc
      · exact Or.inr rfl
      · exact Or.inl ((isNumeral_iff.mp hf).2 c hc)
  have hm := readMantissa_point hd hf
  have hlen := List.length_pos_iff.mpr (isNumeral_iff.mp hd).1
  obtain ⟨b, s, rfl, hb⟩ := exists_cons_of_isNumeral hd
  have hz : (b :: s).length + fs.length ≠ 0 := by omega
  simp only [List.cons_append] at hall hm ⊢
  rw [readFloat?_positional hb hall]
  simp only [decimalNumeral?, hm, if_neg hz, if_true]

theorem isPlain_of_readFloat? {ds fs : Bytes} {x : Float} (hd : isNumeral ds = true)
    (hf : isNumeral fs = true) (hr : readFloat? (ds ++ byte '.' :: fs) = some x) :
    isPlain x = true := by
  rw [readFloat?_point hd hf] at hr
  split at hr
  · split at hr
    · rename_i hlt
      cases hr
      exact isPlain_ofMagnitude hlt
    · cases hr
  · cases hr

/-- The text of a decimal has digits on both sides of its point, and they spell the decimal. -/
theorem Decimal.text_eq (d : Decimal) : ∃ ds fs, d.text = ds ++ byte '.' :: fs ∧
    isNumeral ds = true ∧ isNumeral fs = true ∧
    decimalBits? ⟨ofDigits (ds ++ fs), ds.length + fs.length, fs.length, []⟩ 0 =
      some d.nearestBits := by
  obtain ⟨c, exponent⟩ := d
  cases exponent with
  | ofNat e =>
    refine ⟨Text.decimal (c * Nat.pow 10 e), bytes "0", rfl, isNumeral_decimal _, by decide, ?_⟩
    have hdigits : ofDigits (Text.decimal (c * Nat.pow 10 e) ++ bytes "0") =
        c * Nat.pow 10 e * 10 := by
      rw [ofDigits_append, ofDigits_decimal]
      rfl
    have hone : ((0 : Int) - ((bytes "0").length : Nat)) = .negSucc 0 := rfl
    simp only [decimalBits?, hdigits, hone, Decimal.nearestBits]
    generalize c * Nat.pow 10 e = n
    by_cases hn : n = 0
    · rw [if_pos (by omega), hn, nearestBits_zero]
    · rw [if_neg (by omega), if_neg (by omega), if_neg (by omega)]
      exact congrArg some (nearestBits_mul_right n 1 (by omega))
  | negSucc e =>
    have hnum := isNumeral_iff.mp (isNumeral_decimal c)
    generalize hp : List.replicate (e + 1 + 1 - (Text.decimal c).length) (byte '0') ++
      Text.decimal c = padded
    have htext : (⟨c, .negSucc e⟩ : Decimal).text =
        padded.take (padded.length - (e + 1)) ++
          byte '.' :: padded.drop (padded.length - (e + 1)) := by
      rw [← hp]
      rfl
    have hlen : e + 2 ≤ padded.length := by
      rw [← hp, List.length_append, List.length_replicate]
      omega
    have hall : ∀ b ∈ padded, isDigit b = true := by
      intro b hb
      rw [← hp] at hb
      rcases List.mem_append.mp hb with hb | hb
      · rw [List.eq_of_mem_replicate hb]
        decide
      · exact hnum.2 b hb
    have hvalue : ofDigits padded = c := by
      rw [← hp, ofDigits_append, ofDigits_zeros, ofDigits_decimal, Nat.zero_mul, Nat.zero_add]
    refine ⟨_, _, htext, isNumeral_iff.mpr ⟨?_, ?_⟩, isNumeral_iff.mpr ⟨?_, ?_⟩, ?_⟩
    · exact List.ne_nil_of_length_pos (by rw [List.length_take]; omega)
    · exact fun b hb => hall b (List.mem_of_mem_take hb)
    · exact List.ne_nil_of_length_pos (by rw [List.length_drop]; omega)
    · exact fun b hb => hall b (List.mem_of_mem_drop hb)
    · have hplaces : padded.length - (padded.length - (e + 1)) = e + 1 := by omega
      have hexp : (0 : Int) - ((e + 1 : Nat) : Int) = .negSucc e := by omega
      rw [List.take_append_drop, List.length_take, List.length_drop, hplaces, hvalue]
      simp only [decimalBits?, hexp, Decimal.nearestBits]
      by_cases hc : c = 0
      · rw [if_pos hc, hc, nearestBits_zero]
      · rw [if_neg hc, if_neg (by omega), if_neg (by omega)]

/-- The text of a plain float is a numeral with a point that reads back as the float. -/
theorem floatText_eq {x : Float} (h : isPlain x = true) : ∃ ds fs,
    floatText x = ds ++ byte '.' :: fs ∧ isNumeral ds = true ∧ isNumeral fs = true ∧
    readFloat? (floatText x) = some x := by
  have hlt := isPlain_iff.mp h
  have hneg : isNegative x = false := by
    simp only [isPlain, Bool.and_eq_true, Bool.not_eq_true'] at h
    exact h.1
  rw [← magnitudeBits_of_isPlain h] at hlt
  have htext : floatText x = (shortest (magnitudeBits x)).text := by
    unfold floatText
    rw [if_neg (by omega), if_neg (by omega), hneg]
    rfl
  obtain ⟨ds, fs, hds, hd, hf, hbits⟩ := (shortest (magnitudeBits x)).text_eq
  refine ⟨ds, fs, by rw [htext, hds], hd, hf, ?_⟩
  rw [htext, hds, readFloat?_point hd hf, hbits, shortest_nearestBits]
  simp only [if_pos hlt, ofMagnitude_magnitudeBits h]

end ExprLang.Number
