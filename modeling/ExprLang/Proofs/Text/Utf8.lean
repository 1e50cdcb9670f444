import Mathlib.Tactic.NormNum
import ExprLang.Text.Utf8

/-!
# Well-formed sequences

The UTF-8 sequences by their bytes, which are the encodings of the characters. The first byte of a
sequence tells its width and is not found inside of any, and a text that starts with a sequence is
decoded to its character.
-/

namespace ExprLang.Text.Utf8

/-! ## Sequences -/

/-- A byte behind the first one of a sequence. -/
def IsTail (b : UInt8) : Prop := 0x80 ≤ b.toNat ∧ b.toNat < 0xC0

/-- The well-formed sequences. The first bytes C0 and C1 and those from F5 on start none. -/
inductive Sequence : Bytes → Prop
  | one {a : UInt8} (ha : a.toNat < 0x80) : Sequence [a]
  | two {a b : UInt8} (ha : 0xC2 ≤ a.toNat ∧ a.toNat < 0xE0) (hb : IsTail b) : Sequence [a, b]
  | three {a b c : UInt8} (ha : 0xE0 ≤ a.toNat ∧ a.toNat < 0xF0) (hb : IsTail b) (hc : IsTail c)
    (overlong : a.toNat = 0xE0 → 0xA0 ≤ b.toNat) (surrogate : a.toNat = 0xED → b.toNat < 0xA0) :
    Sequence [a, b, c]
  | four {a b c d : UInt8} (ha : 0xF0 ≤ a.toNat ∧ a.toNat < 0xF5) (hb : IsTail b) (hc : IsTail c)
    (hd : IsTail d) (overlong : a.toNat = 0xF0 → 0x90 ≤ b.toNat)
    (large : a.toNat = 0xF4 → b.toNat < 0x90) : Sequence [a, b, c, d]

theorem char_range (c : Char) :
    c.val.toNat < 0xD800 ∨ 0xDFFF < c.val.toNat ∧ c.val.toNat < 0x110000 := c.valid

theorem isTail_ofNat (n : Nat) : IsTail (UInt8.ofNat (n % 64 + 128)) := by
  simp only [IsTail, UInt8.toNat_ofNat']
  omega

theorem sequence_encode (c : Char) : Sequence (encode c) := by
  have hc := char_range c
  simp only [encode, String.utf8EncodeChar]
  generalize c.val.toNat = v at hc
  split
  · refine .one ?_
    simp only [UInt8.toNat_ofNat']
    omega
  · split
    · refine .two ?_ (isTail_ofNat _)
      simp only [UInt8.toNat_ofNat']
      omega
    · split
      · refine .three ?_ (isTail_ofNat _) (isTail_ofNat _) ?_ ?_
        all_goals
          simp only [UInt8.toNat_ofNat']
          omega
      · refine .four ?_ (isTail_ofNat _) (isTail_ofNat _) (isTail_ofNat _) ?_ ?_
        all_goals
          simp only [UInt8.toNat_ofNat']
          omega

theorem exists_char {v : Nat} (h : v < 0xD800 ∨ 0xDFFF < v ∧ v < 0x110000) :
    ∃ c : Char, c.val.toNat = v :=
  ⟨Char.ofNatAux v h, rfl⟩

theorem ofNat_eq {n : Nat} {b : UInt8} (h : n = b.toNat) : UInt8.ofNat n = b := by
  rw [h, UInt8.ofNat_toNat]

/-- The payload bits of a sequence are the number of its character. -/
theorem Sequence.exists_encode {w : Bytes} (h : Sequence w) : ∃ c, encode c = w := by
  cases h with
  | @one a ha =>
    obtain ⟨x, hx⟩ := exists_char (v := a.toNat) (by omega)
    refine ⟨x, ?_⟩
    simp only [encode, String.utf8EncodeChar, hx]
    rw [if_pos (by omega), UInt8.ofNat_toNat]
  | @two a b ha hb =>
    simp only [IsTail] at hb
    obtain ⟨x, hx⟩ := exists_char (v := a.toNat % 32 * 64 + b.toNat % 64) (by omega)
    refine ⟨x, ?_⟩
    simp only [encode, String.utf8EncodeChar, hx]
    rw [if_neg (by omega), if_pos (by omega), ofNat_eq (b := a) (by omega),
      ofNat_eq (b := b) (by omega)]
  | @three a b c ha hb hc overlong surrogate =>
    simp only [IsTail] at hb hc
    obtain ⟨x, hx⟩ := exists_char
      (v := a.toNat % 16 * 4096 + b.toNat % 64 * 64 + c.toNat % 64) (by omega)
    refine ⟨x, ?_⟩
    simp only [encode, String.utf8EncodeChar, hx]
    rw [if_neg (by omega), if_neg (by omega), if_pos (by omega), ofNat_eq (b := a) (by omega),
      ofNat_eq (b := b) (by omega), ofNat_eq (b := c) (by omega)]
  | @four a b c d ha hb hc hd overlong large =>
    simp only [IsTail] at hb hc hd
    obtain ⟨x, hx⟩ := exists_char (v := a.toNat % 8 * 262144 + b.toNat % 64 * 4096 +
      c.toNat % 64 * 64 + d.toNat % 64) (by omega)
    refine ⟨x, ?_⟩
    simp only [encode, String.utf8EncodeChar, hx]
    rw [if_neg (by omega), if_neg (by omega), if_neg (by omega), ofNat_eq (b := a) (by omega),
      ofNat_eq (b := b) (by omega), ofNat_eq (b := c) (by omega), ofNat_eq (b := d) (by omega)]

theorem sequence_iff {w : Bytes} : Sequence w ↔ ∃ c, encode c = w := by
  constructor
  · exact Sequence.exists_encode
  · rintro ⟨c, rfl⟩
    exact sequence_encode c

/-- The first byte of a sequence tells its width and is none of those behind it. -/
theorem Sequence.exists_cons {w : Bytes} (h : Sequence w) :
    ∃ b rest, w = b :: rest ∧ width b = rest.length + 1 ∧ ¬ IsTail b ∧ ∀ x ∈ rest, IsTail x := by
  simp only [width, UInt8.lt_iff_toNat_lt, UInt8.reduceToNat]
  cases h with
  | one ha =>
    refine ⟨_, _, rfl, ?_, fun hb => ?_, fun x hx => by cases hx⟩
    · rw [if_pos (by omega)]
      rfl
    · simp only [IsTail] at hb
      omega
  | two ha hb =>
    refine ⟨_, _, rfl, ?_, fun hb => ?_, List.forall_mem_singleton.mpr hb⟩
    · rw [if_neg (by omega), if_pos (by omega)]
      rfl
    · simp only [IsTail] at hb
      omega
  | three ha hb hc =>
    refine ⟨_, _, rfl, ?_, fun hb => ?_,
      List.forall_mem_cons.mpr ⟨hb, List.forall_mem_singleton.mpr hc⟩⟩
    · rw [if_neg (by omega), if_neg (by omega), if_pos (by omega)]
      rfl
    · simp only [IsTail] at hb
      omega
  | four ha hb hc hd =>
    refine ⟨_, _, rfl, ?_, fun hb => ?_, List.forall_mem_cons.mpr
      ⟨hb, List.forall_mem_cons.mpr ⟨hc, List.forall_mem_singleton.mpr hd⟩⟩⟩
    · rw [if_neg (by omega), if_neg (by omega), if_neg (by omega)]
      rfl
    · simp only [IsTail] at hb
      omega

/-! ## Characters -/

theorem IsTail.ne_newline {b : UInt8} (h : IsTail b) : b ≠ newline := by
  rintro rfl
  exact absurd h.1 (by decide)

/-- The first byte of a character tells its width, and none of the others is a line break. -/
theorem encode_eq_cons (c : Char) :
    ∃ b rest, encode c = b :: rest ∧ width b = rest.length + 1 ∧ ∀ x ∈ rest, x ≠ newline := by
  obtain ⟨b, rest, he, hw, -, hrest⟩ := (sequence_encode c).exists_cons
  exact ⟨b, rest, he, hw, fun x hx => (hrest x hx).ne_newline⟩

theorem encode_ne_nil (c : Char) : encode c ≠ [] := by
  obtain ⟨b, rest, h, -⟩ := encode_eq_cons c
  simp [h]

/-- The payload bits of a character spell its number. -/
theorem number_encode {c : Char} {b : UInt8} {rest : Bytes} (h : encode c = b :: rest) :
    number (width b) (b :: rest) = c.toNat := by
  have hc := char_range c
  obtain ⟨_, _, he, hw, -⟩ := encode_eq_cons c
  obtain ⟨rfl, rfl⟩ := List.cons.inj (he.symm.trans h)
  rw [hw, Char.toNat]
  simp only [encode, String.utf8EncodeChar] at h
  generalize c.val.toNat = v at h hc
  split at h
  · obtain ⟨rfl, rfl⟩ := List.cons.inj h
    simp only [number, leadBits, List.length, List.foldl, UInt8.toNat_ofNat', ↓reduceIte]
    omega
  · -- Two, three or four bytes: six bits of payload in each byte but the first.
    split at h
    on_goal 2 => split at h
    all_goals
      obtain ⟨rfl, rfl⟩ := List.cons.inj h
      simp only [number, leadBits, List.length, List.foldl, UInt8.toNat_ofNat']
      norm_num
      omega

/-- A text that starts with the encoding of a character is decoded to it. -/
theorem decode?_encode (c : Char) (rest : Bytes) :
    decode? (encode c ++ rest) = some (c, rest) := by
  obtain ⟨b, t, he, hw, -⟩ := encode_eq_cons c
  have htake : (b :: (t ++ rest)).take (width b) = b :: t := by
    rw [← List.cons_append, List.take_left' (by rw [hw, List.length_cons])]
  have hdrop : (b :: (t ++ rest)).drop (width b) = rest := by
    rw [← List.cons_append, List.drop_left' (by rw [hw, List.length_cons])]
  rw [he, List.cons_append]
  simp only [decode?, htake, hdrop, number_encode he, Char.ofNat_toNat, he, ↓reduceIte]

end ExprLang.Text.Utf8
