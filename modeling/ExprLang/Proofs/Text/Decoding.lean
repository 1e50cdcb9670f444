import Mathlib.Data.Set.Card
import ExprLang.Proofs.Text.Utf8

/-!
# Decoding a text

A text is made of the sequences in it and of single bytes that belong to none. The sequences do not
overlap, because a first byte is found at the start of a sequence only, so there is one way to see a
text like this. It is the way the text is decoded.
-/

namespace ExprLang.Text.Utf8

/-! ## Parts of a text -/

/-- A sequence stands in a text at an offset. -/
def SequenceAt (s : Bytes) (offset : Nat) (w : Bytes) : Prop :=
  Sequence w ∧ ∃ before after, s = before ++ w ++ after ∧ before.length = offset

/-- The byte at an offset belongs to a sequence. -/
def InSequence (s : Bytes) (offset : Nat) : Prop :=
  ∃ start w, SequenceAt s start w ∧ start ≤ offset ∧ offset < start + w.length

/-- A character, or a byte that belongs to none. -/
inductive Part
  | character (c : Char)
  | malformed (b : UInt8)

namespace Part

def text : Part → Bytes
  | .character c => encode c
  | .malformed b => [b]

/-- The text a part is decoded to. A malformed byte becomes U+FFFD. -/
def shown : Part → Bytes
  | .character c => encode c
  | .malformed _ => [0xEF, 0xBF, 0xBD]

def decoded : Part → Char
  | .character c => c
  | .malformed _ => replacement

theorem encode_decoded (p : Part) : encode p.decoded = p.shown := by
  cases p with
  | character c => rfl
  | malformed b =>
    show encode replacement = [0xEF, 0xBF, 0xBD]
    decide

theorem text_ne_nil (p : Part) : p.text ≠ [] := by
  cases p with
  | character c => exact encode_ne_nil c
  | malformed b => exact List.cons_ne_nil b []

end Part

/-- The parts of a text: its characters, and its bytes that belong to no sequence. -/
structure Decoding (s : Bytes) (ps : List Part) : Prop where
  text : ps.flatMap Part.text = s
  malformed : ∀ ls b rs, ps = ls ++ .malformed b :: rs →
    ¬ InSequence s (ls.flatMap Part.text).length

/-- The parts of a text from its start on: a character if one comes first, else a single byte. -/
inductive Division : Bytes → List Part → Prop
  | nil : Division [] []
  | character {c : Char} {s : Bytes} {ps : List Part} (h : Division s ps) :
    Division (encode c ++ s) (.character c :: ps)
  | malformed {b : UInt8} {s : Bytes} {ps : List Part}
    (hb : ∀ c rest, b :: s ≠ encode c ++ rest) (h : Division s ps) :
    Division (b :: s) (.malformed b :: ps)

/-! ## From the start on -/

theorem encode_append_inj {c d : Char} {s t : Bytes} (h : encode c ++ s = encode d ++ t) :
    c = d ∧ s = t := by
  have hc := decode?_encode c s
  rw [h, decode?_encode] at hc
  cases hc
  exact ⟨rfl, rfl⟩

/-- A byte below 0x80 is a character of its own. -/
theorem encode_eq_singleton {c : Char} {b : UInt8} (hmem : b ∈ encode c) (hb : b.toNat < 0x80) :
    encode c = [b] := by
  obtain ⟨a, rest, hc, hwidth, -, htail⟩ := (sequence_encode c).exists_cons
  rw [hc] at hmem ⊢
  rcases List.mem_cons.mp hmem with rfl | hrest
  · have hone : width b = 1 := if_pos (UInt8.lt_iff_toNat_lt.mpr (by simp; omega))
    have hnil : rest = [] := List.eq_nil_of_length_eq_zero (by omega)
    rw [hnil]
  · have := (htail b hrest).1
    omega

/-- An ASCII character is found in the encoding of no other one. -/
theorem eq_of_byte_mem {a c : Char} (ha : encode a = [byte a]) (hlow : (byte a).toNat < 0x80)
    (hmem : byte a ∈ encode c) : c = a := by
  have hc := encode_eq_singleton hmem hlow
  exact (encode_append_inj (s := []) (t := []) (by rw [hc, ha])).1

/-- A malformed byte is not below 0x80. -/
theorem not_low_of_malformed {b : UInt8} {s : Bytes} (h : ∀ c rest, b :: s ≠ encode c ++ rest) :
    ¬ b.toNat < 0x80 := by
  intro hb
  obtain ⟨c, hc⟩ := (Sequence.one hb).exists_encode
  exact h c s (by rw [hc, List.singleton_append])

theorem exists_charsUpTo {fuel : Nat} {s : Bytes} (h : s.length ≤ fuel) :
    ∃ ps, Division s ps ∧ charsUpTo fuel s = ps.map Part.decoded := by
  induction fuel generalizing s with
  | zero =>
    obtain rfl := List.eq_nil_of_length_eq_zero (Nat.le_zero.mp h)
    exact ⟨[], .nil, rfl⟩
  | succ fuel ih =>
    cases s with
    | nil => exact ⟨[], .nil, rfl⟩
    | cons b s =>
      rw [List.length_cons] at h
      simp only [charsUpTo]
      cases hd : decode? (b :: s) with
      | none =>
        have hb : ∀ c rest, b :: s ≠ encode c ++ rest := by
          intro c rest he
          rw [he, decode?_encode] at hd
          cases hd
        obtain ⟨ps, hps, hchars⟩ := ih (s := s) (by omega)
        exact ⟨.malformed b :: ps, .malformed hb hps, by rw [hchars]; rfl⟩
      | some p =>
        obtain ⟨c, rest⟩ := p
        have hs := decode?_eq_some hd
        have hlength := congrArg List.length hs
        have hpos := List.length_pos_iff.mpr (encode_ne_nil c)
        rw [List.length_cons, List.length_append] at hlength
        obtain ⟨ps, hps, hchars⟩ := ih (s := rest) (by omega)
        rw [hs]
        exact ⟨.character c :: ps, .character hps, by simp only [hchars]; rfl⟩

theorem exists_division (s : Bytes) : ∃ ps, Division s ps ∧ chars s = ps.map Part.decoded :=
  exists_charsUpTo (Nat.le_refl s.length)

theorem Division.unique {s : Bytes} {ps qs : List Part} (hp : Division s ps)
    (hq : Division s qs) : ps = qs := by
  induction hp generalizing qs with
  | nil =>
    generalize ht : ([] : Bytes) = t at hq
    cases hq with
    | nil => rfl
    | @character d => exact absurd (List.append_eq_nil_iff.mp ht.symm).1 (encode_ne_nil d)
    | malformed => cases ht
  | @character c s ps _ ih =>
    generalize ht : encode c ++ s = t at hq
    cases hq with
    | nil => exact absurd (List.append_eq_nil_iff.mp ht).1 (encode_ne_nil c)
    | character hq =>
      obtain ⟨rfl, rfl⟩ := encode_append_inj ht
      rw [ih hq]
    | malformed hb => exact absurd ht.symm (hb c s)
  | @malformed b s ps hb _ ih =>
    generalize ht : b :: s = t at hq
    cases hq with
    | nil => cases ht
    | @character d rest => exact absurd ht (hb d rest)
    | malformed _ hq =>
      cases ht
      rw [ih hq]

theorem Division.text {s : Bytes} {ps : List Part} (h : Division s ps) :
    ps.flatMap Part.text = s := by
  induction h with
  | nil => rfl
  | character _ ih =>
    rw [List.flatMap_cons, ih]
    rfl
  | malformed _ _ ih =>
    rw [List.flatMap_cons, ih]
    rfl

/-! ## Anywhere in the text -/

/-- Of two ways to cut a list in two, one cuts not behind the other or strictly inside of it. -/
theorem append_eq_append_cases {α : Type} {as bs cs ds : List α} (h : as ++ bs = cs ++ ds) :
    (∃ es, cs = as ++ es ∧ bs = es ++ ds) ∨ ∃ e es, as = cs ++ e :: es ∧ ds = e :: es ++ bs := by
  obtain h | ⟨es, rfl, rfl⟩ := List.append_eq_append_iff.mp h
  · exact .inl h
  · cases es with
    | nil => exact .inl ⟨[], by simp, rfl⟩
    | cons e es => exact .inr ⟨e, es, rfl, rfl⟩

/-- A sequence that starts inside of another one starts with a byte that starts none. -/
theorem encode_not_inside {c d : Char} {before bs s after : Bytes} {b x : UInt8}
    (hc : encode c = b :: before ++ x :: bs) : encode d ++ after ≠ x :: bs ++ s := by
  intro hd
  obtain ⟨a, rest, hrest, -, -, htail⟩ := (sequence_encode c).exists_cons
  obtain ⟨a', rest', hrest', -, hfirst, -⟩ := (sequence_encode d).exists_cons
  rw [hc] at hrest
  rw [hrest'] at hd
  obtain ⟨rfl, -⟩ := List.cons.inj hd
  obtain ⟨rfl, rfl⟩ := List.cons.inj hrest
  exact hfirst (htail _ (List.mem_append_right before List.mem_cons_self))

/-- Every sequence in a text is one of its characters. -/
theorem Division.locate {s before w after : Bytes} {ps : List Part} (h : Division s ps)
    (hs : s = before ++ w ++ after) (hw : Sequence w) :
    ∃ ls c rs, ps = ls ++ .character c :: rs ∧ encode c = w ∧ ls.flatMap Part.text = before := by
  obtain ⟨d, rfl⟩ := hw.exists_encode
  rw [List.append_assoc] at hs
  induction h generalizing before with
  | nil =>
    have hnil := (List.append_eq_nil_iff.mp (List.append_eq_nil_iff.mp hs.symm).2).1
    exact absurd hnil (encode_ne_nil d)
  | @character c s ps _ ih =>
    obtain ⟨es, rfl, hs'⟩ | ⟨x, bs, hc, hd⟩ := append_eq_append_cases hs
    · obtain ⟨ls, e, rs, rfl, he, hls⟩ := ih hs'
      refine ⟨.character c :: ls, e, rs, rfl, he, ?_⟩
      rw [List.flatMap_cons, hls]
      rfl
    · cases before with
      | nil =>
        obtain ⟨rfl, -⟩ := encode_append_inj hs
        exact ⟨[], c, ps, rfl, rfl, rfl⟩
      | cons b before => exact absurd hd (encode_not_inside hc)
  | @malformed b s ps hb _ ih =>
    cases before with
    | nil => exact absurd hs (hb d after)
    | cons x before =>
      obtain ⟨rfl, hs'⟩ := List.cons.inj hs
      obtain ⟨ls, e, rs, rfl, he, hls⟩ := ih hs'
      refine ⟨.malformed b :: ls, e, rs, rfl, he, ?_⟩
      rw [List.flatMap_cons, hls]
      rfl

theorem Division.decoding {s : Bytes} {ps : List Part} (h : Division s ps) : Decoding s ps where
  text := h.text
  malformed := by
    rintro ls b rs hps ⟨start, w, ⟨hw, before, after, hs, rfl⟩, hle, hlt⟩
    obtain ⟨ls', c, rs', hps', rfl, rfl⟩ := h.locate hs hw
    obtain ⟨es, rfl, hes⟩ | ⟨e, es, rfl, hes⟩ := append_eq_append_cases (hps.symm.trans hps')
    · cases es with
      | nil => cases hes
      | cons e es =>
        cases hes
        simp only [List.flatMap_append, List.flatMap_cons, List.length_append, Part.text,
          List.length_singleton] at hle
        omega
    · obtain ⟨rfl, -⟩ := List.cons.inj hes
      simp only [List.flatMap_append, List.flatMap_cons, List.length_append, Part.text] at hlt
      omega

theorem Decoding.division {s : Bytes} {ps : List Part} (h : Decoding s ps) : Division s ps := by
  suffices hrest : ∀ ls rs, ps = ls ++ rs → Division (rs.flatMap Part.text) rs by
    have hall := hrest [] ps rfl
    rwa [h.text] at hall
  intro ls rs
  induction rs generalizing ls with
  | nil => exact fun _ => .nil
  | cons p rs ih =>
    intro hps
    have hnext := ih (ls ++ [p]) (by rw [hps, List.append_assoc]; rfl)
    cases p with
    | character c => exact .character hnext
    | malformed b =>
      refine .malformed (fun c rest he => h.malformed ls b rs hps ?_) hnext
      refine ⟨_, encode c, ⟨sequence_encode c, ls.flatMap Part.text, rest, ?_, rfl⟩,
        Nat.le_refl _, ?_⟩
      · rw [← h.text, hps, List.flatMap_append, List.append_assoc, ← he]
        rfl
      · have hpos := List.length_pos_iff.mpr (encode_ne_nil c)
        omega

theorem Decoding.unique {s : Bytes} {ps qs : List Part} (hp : Decoding s ps)
    (hq : Decoding s qs) : ps = qs :=
  hp.division.unique hq.division

/-! ## The number of parts -/

/-- Where the `k`th part starts. -/
def offset (ps : List Part) (k : Nat) : Nat := ((ps.take k).flatMap Part.text).length

theorem offset_split {ls rs : List Part} {p : Part} :
    offset (ls ++ p :: rs) ls.length = (ls.flatMap Part.text).length := by
  rw [offset, List.take_left]

theorem offset_injOn (ps : List Part) : Set.InjOn (offset ps) (Finset.range ps.length) := by
  have hstep : ∀ k < ps.length, offset ps k < offset ps (k + 1) := by
    intro k hk
    have hpos := List.length_pos_iff.mpr (ps[k]).text_ne_nil
    simp only [offset, List.take_add_one, List.getElem?_eq_getElem hk, Option.toList_some,
      List.flatMap_append, List.flatMap_cons, List.flatMap_nil, List.length_append]
    omega
  have hlt : ∀ k l, k < l → l < ps.length → offset ps k < offset ps l := by
    intro k l hkl hl
    induction hkl with
    | refl => exact hstep k (by omega)
    | step _ ih => exact (ih (by omega)).trans (hstep _ (by omega))
  intro k hk l hl heq
  simp only [Finset.coe_range, Set.mem_Iio] at hk hl
  rcases Nat.lt_trichotomy k l with h | h | h
  · have := hlt k l h hl
    omega
  · exact h
  · have := hlt l k h hk
    omega

/-- A byte is in one of the parts. -/
theorem exists_part {ps : List Part} {i : Nat} (h : i < (ps.flatMap Part.text).length) :
    ∃ ls p rs, ps = ls ++ p :: rs ∧ (ls.flatMap Part.text).length ≤ i ∧
      i < (ls.flatMap Part.text).length + p.text.length := by
  induction ps generalizing i with
  | nil => cases h
  | cons p ps ih =>
    rw [List.flatMap_cons, List.length_append] at h
    by_cases hp : i < p.text.length
    · exact ⟨[], p, ps, rfl, Nat.zero_le _, by simpa using hp⟩
    · obtain ⟨ls, q, rs, rfl, hle, hlt⟩ := ih (i := i - p.text.length) (by omega)
      refine ⟨p :: ls, q, rs, rfl, ?_, ?_⟩
      all_goals
        rw [List.flatMap_cons, List.length_append]
        omega

theorem Decoding.sequenceAt {s : Bytes} {ls rs : List Part} {c : Char}
    (h : Decoding s (ls ++ .character c :: rs)) :
    SequenceAt s (ls.flatMap Part.text).length (encode c) := by
  refine ⟨sequence_encode c, _, rs.flatMap Part.text, ?_, rfl⟩
  rw [← h.text, List.flatMap_append, List.append_assoc]
  rfl

/-- The parts start where a sequence starts, and at the bytes that belong to none. -/
theorem Decoding.starts {s : Bytes} {ps : List Part} (h : Decoding s ps) :
    {i | ∃ w, SequenceAt s i w} ∪ {i | i < s.length ∧ ¬ InSequence s i} =
      ((Finset.range ps.length).image (offset ps) : Set Nat) := by
  ext i
  simp only [Set.mem_union, Set.mem_ofPred_eq, Finset.coe_image, Finset.coe_range, Set.mem_image,
    Set.mem_Iio]
  constructor
  · rintro (⟨w, hw, before, after, hs, rfl⟩ | ⟨hi, hloose⟩)
    · obtain ⟨ls, c, rs, rfl, -, rfl⟩ := h.division.locate hs hw
      exact ⟨ls.length, by simp, offset_split⟩
    · rw [← h.text] at hi
      obtain ⟨ls, p, rs, rfl, hle, hlt⟩ := exists_part hi
      refine ⟨ls.length, by simp, ?_⟩
      rw [offset_split]
      cases p with
      | character c => exact absurd ⟨_, _, h.sequenceAt, hle, hlt⟩ hloose
      | malformed b =>
        simp only [Part.text, List.length_singleton] at hlt
        omega
  · rintro ⟨k, hk, rfl⟩
    obtain ⟨ls, p, rs, rfl, rfl⟩ : ∃ ls p rs, ps = ls ++ p :: rs ∧ ls.length = k := by
      refine ⟨ps.take k, ps[k], ps.drop (k + 1), ?_, ?_⟩
      · simp
      · rw [List.length_take]
        omega
    rw [offset_split]
    cases p with
    | character c => exact .inl ⟨_, h.sequenceAt⟩
    | malformed b =>
      refine .inr ⟨?_, h.malformed ls b rs rfl⟩
      rw [← h.text, List.flatMap_append, List.length_append, List.flatMap_cons]
      simp only [Part.text, List.length_append, List.length_singleton]
      omega

/-- There are as many parts as sequences and bytes that belong to none. -/
theorem Decoding.length {s : Bytes} {ps : List Part} (h : Decoding s ps) :
    ps.length = {i | ∃ w, SequenceAt s i w}.ncard + {i | i < s.length ∧ ¬ InSequence s i}.ncard := by
  have hdisjoint :
      Disjoint {i | ∃ w, SequenceAt s i w} {i | i < s.length ∧ ¬ InSequence s i} := by
    refine Set.disjoint_left.mpr ?_
    rintro i ⟨w, hw⟩ ⟨-, hloose⟩
    have hpos : 0 < w.length := by
      obtain ⟨b, rest, rfl, -⟩ := hw.1.exists_cons
      exact Nat.succ_pos _
    exact hloose ⟨i, w, hw, Nat.le_refl i, by omega⟩
  have hfinite : ({i | ∃ w, SequenceAt s i w} ∪
      {i | i < s.length ∧ ¬ InSequence s i}).Finite := by
    rw [h.starts]
    exact Finset.finite_toSet _
  rw [← Set.ncard_union_eq hdisjoint (hfinite.subset Set.subset_union_left)
    (hfinite.subset Set.subset_union_right), h.starts, Set.ncard_coe_finset,
    Finset.card_image_of_injOn (offset_injOn ps), Finset.card_range]

/-! ## Well-formed texts -/

/-- A text of sequences and nothing else. -/
def WellFormed (s : Bytes) : Prop := ∃ ws : List Bytes, (∀ w ∈ ws, Sequence w) ∧ ws.flatten = s

theorem exists_chars {ws : List Bytes} (h : ∀ w ∈ ws, Sequence w) :
    ∃ cs : List Char, cs.map encode = ws := by
  induction ws with
  | nil => exact ⟨[], rfl⟩
  | cons w ws ih =>
    obtain ⟨c, rfl⟩ := (h w List.mem_cons_self).exists_encode
    obtain ⟨cs, rfl⟩ := ih fun v hv => h v (List.mem_cons_of_mem _ hv)
    exact ⟨c :: cs, rfl⟩

theorem division_chars (cs : List Char) :
    Division (cs.flatMap encode) (cs.map Part.character) := by
  induction cs with
  | nil => exact .nil
  | cons c cs ih => exact .character ih

/-- Nothing in a well-formed text is replaced. -/
theorem Decoding.shown_eq {s : Bytes} {ps : List Part} (h : Decoding s ps) (hs : WellFormed s) :
    ps.flatMap Part.shown = s := by
  obtain ⟨ws, hws, rfl⟩ := hs
  obtain ⟨cs, rfl⟩ := exists_chars hws
  rw [← List.flatMap_def] at h ⊢
  rw [h.division.unique (division_chars cs), List.flatMap_map]
  rfl

end ExprLang.Text.Utf8
