import Mathlib.Tactic.Ring
import ExprLang.NodeSource
import ExprLang.Proofs.Text.Decoding

/-!
# Fields and commas

Splitting a text into fields drops nothing but the commas between them, and joining fields with
commas is undone by it if each of them closes as many braces as it opens and has no comma outside of
them. Both follow from how a text is split that goes on behind a part without such a comma.

The braces of a part need not match: only how many were opened and closed before a comma counts, so
a text with a closing brace too many keeps the commas behind it together.

Splitting byte by byte is the same as going through the characters of a text, malformed bytes
included, and cutting it at the offsets where the commas stand.
-/

namespace ExprLang.NodeSource

/-- The braces opened in a text, less those closed. -/
def openBraces (s : Bytes) : Int := s.count (byte '\x7b') - s.count (byte '\x7d')

/-- A part that stays in one piece when it starts at a depth: no comma in it is at depth zero. -/
def Unbroken (d : Int) (s : Bytes) : Prop :=
  ∀ before after, s = before ++ byte ',' :: after → d + openBraces before ≠ 0

/-- A text that can be one of several fields. -/
structure IsField (f : Bytes) : Prop where
  balanced : f.count (byte '\x7b') = f.count (byte '\x7d')
  unbroken : ∀ before after, f = before ++ byte ',' :: after →
    before.count (byte '\x7b') ≠ before.count (byte '\x7d')

/-! ## Depth -/

@[simp] theorem openBraces_nil : openBraces [] = 0 := rfl

theorem openBraces_cons (b : UInt8) (s : Bytes) :
    openBraces (b :: s) = openBraces [b] + openBraces s := by
  simp only [openBraces, List.count_cons, List.count_nil]
  push_cast
  ring

theorem IsField.openBraces_eq {f : Bytes} (h : IsField f) : openBraces f = 0 := by
  rw [openBraces, h.balanced]
  exact Int.sub_self _

theorem IsField.unbroken_zero {f : Bytes} (h : IsField f) : Unbroken 0 f := by
  intro before after hf hd
  have hne := h.unbroken before after hf
  simp only [openBraces] at hd
  omega

theorem Unbroken.tail {d : Int} {b : UInt8} {s : Bytes} (h : Unbroken d (b :: s)) :
    Unbroken (d + openBraces [b]) s := by
  intro before after hs hd
  rw [Int.add_assoc, ← openBraces_cons] at hd
  exact h (b :: before) after (by rw [hs, List.cons_append]) hd

theorem Unbroken.head {d : Int} {b : UInt8} {s : Bytes} (h : Unbroken d (b :: s)) :
    ¬ (b = byte ',' ∧ d = 0) := by
  rintro ⟨rfl, rfl⟩
  exact h [] s rfl rfl

/-! ## Splitting -/

theorem splitFieldsAt_ne_nil (d : Int) (s : Bytes) : splitFieldsAt d s ≠ [] := by
  cases s with
  | nil => exact List.cons_ne_nil _ _
  | cons b s =>
    rw [splitFieldsAt]
    split
    · exact List.cons_ne_nil _ _
    · dsimp only
      split
      · exact List.cons_ne_nil _ _
      · exact List.cons_ne_nil _ _

/-- A comma at depth zero starts a new part. -/
theorem splitFieldsAt_comma (s : Bytes) :
    splitFieldsAt 0 (byte ',' :: s) = [] :: splitFieldsAt 0 s := by
  rw [splitFieldsAt, if_pos ⟨rfl, rfl⟩]

/-- Any other byte belongs to the first part of what follows it. -/
theorem splitFieldsAt_cons {d : Int} {b : UInt8} (h : ¬ (b = byte ',' ∧ d = 0)) (s : Bytes) :
    splitFieldsAt d (b :: s) = (splitFieldsAt (d + openBraces [b]) s).modifyHead (b :: ·) := by
  have hnext : (if b = byte '\x7b' then d + 1 else if b = byte '\x7d' then d - 1 else d) =
      d + openBraces [b] := by
    split
    · rename_i hb
      subst hb
      rfl
    · split
      · rename_i hb
        subst hb
        rfl
      · simp_all [openBraces]
  rw [splitFieldsAt, if_neg h]
  simp only [hnext]
  cases hs : splitFieldsAt (d + openBraces [b]) s with
  | nil => exact absurd hs (splitFieldsAt_ne_nil _ s)
  | cons part parts => rfl

theorem modifyHead_nil_append (parts : List Bytes) : parts.modifyHead ([] ++ ·) = parts := by
  cases parts <;> rfl

/-- What goes on behind a part without a comma at depth zero is split at the depth behind it. -/
theorem splitFieldsAt_append {d : Int} {s : Bytes} (h : Unbroken d s) (rest : Bytes) :
    splitFieldsAt d (s ++ rest) = (splitFieldsAt (d + openBraces s) rest).modifyHead (s ++ ·) := by
  induction s generalizing d with
  | nil => rw [openBraces_nil, Int.add_zero, modifyHead_nil_append, List.nil_append]
  | cons b s ih =>
    rw [List.cons_append, splitFieldsAt_cons h.head, ih h.tail, openBraces_cons b s, Int.add_assoc,
      List.modifyHead_modifyHead]
    rfl

theorem splitFields_field {f : Bytes} (h : IsField f) : splitFields f = [f] := by
  have happend := splitFieldsAt_append h.unbroken_zero []
  rw [List.append_nil] at happend
  rw [splitFields, happend, h.openBraces_eq]
  simp [splitFieldsAt]

theorem splitFields_field_comma {f : Bytes} (h : IsField f) (rest : Bytes) :
    splitFields (f ++ byte ',' :: rest) = f :: splitFields rest := by
  rw [splitFields, splitFieldsAt_append h.unbroken_zero, h.openBraces_eq, Int.add_zero,
    splitFieldsAt_comma]
  simp [splitFields]

/-! ## Joining -/

theorem intercalate_modifyHead {sep : Bytes} (b : UInt8) {parts : List Bytes} (h : parts ≠ []) :
    sep.intercalate (parts.modifyHead (b :: ·)) = b :: sep.intercalate parts := by
  match parts with
  | [part] => simp
  | part :: next :: parts =>
    simp only [List.modifyHead_cons, List.intercalate_cons_cons, List.cons_append]

theorem intercalate_splitFieldsAt (d : Int) (s : Bytes) :
    [byte ','].intercalate (splitFieldsAt d s) = s := by
  induction s generalizing d with
  | nil => rfl
  | cons b s ih =>
    by_cases h : b = byte ',' ∧ d = 0
    · obtain ⟨rfl, rfl⟩ := h
      obtain ⟨part, parts, hs⟩ := List.exists_cons_of_ne_nil (splitFieldsAt_ne_nil 0 s)
      rw [splitFieldsAt_comma, hs, List.intercalate_cons_cons, ← hs, ih 0]
      rfl
    · rw [splitFieldsAt_cons h, intercalate_modifyHead b (splitFieldsAt_ne_nil _ s), ih]

instance : DecidablePred IsField := fun f =>
  decidable_of_iff (f.count (byte '\x7b') = f.count (byte '\x7d') ∧
    ∀ i < f.length, f[i]? = some (byte ',') →
      (f.take i).count (byte '\x7b') ≠ (f.take i).count (byte '\x7d')) <| by
    constructor
    · rintro ⟨hbalanced, hcommas⟩
      refine ⟨hbalanced, fun before after hf => ?_⟩
      have hcomma := hcommas before.length (by simp [hf]) (by simp [hf])
      rwa [hf, List.take_left] at hcomma
    · intro h
      refine ⟨h.balanced, fun i hi hcomma => h.unbroken (f.take i) (f.drop (i + 1)) ?_⟩
      have hget : f[i] = byte ',' := (List.getElem?_eq_some_iff.mp hcomma).2
      rw [← hget, ← List.drop_eq_getElem_cons hi, List.take_append_drop]

theorem splitFields_intercalate {fields : List Bytes} (hne : fields ≠ [])
    (h : ∀ f ∈ fields, IsField f) : splitFields ([byte ','].intercalate fields) = fields := by
  induction fields with
  | nil => exact absurd rfl hne
  | cons f fields ih =>
    obtain ⟨hf, hfields⟩ := List.forall_mem_cons.mp h
    cases fields with
    | nil =>
      rw [List.intercalate_singleton]
      exact splitFields_field hf
    | cons g gs =>
      have hrest := ih (List.cons_ne_nil g gs) hfields
      rw [List.intercalate_cons_cons, List.append_assoc, List.singleton_append,
        splitFields_field_comma hf, hrest]

/-- Splitting loses nothing but the commas it splits at, and it gives the fields of a list back that
were joined with commas. -/
theorem splitFields_inverts_joining :
    (∀ f : Bytes, [byte ','].intercalate (splitFields f) = f) ∧
    ∀ fields : List Bytes, fields ≠ [] → (∀ f ∈ fields, IsField f) →
      splitFields ([byte ','].intercalate fields) = fields :=
  ⟨intercalate_splitFieldsAt 0, fun _ => splitFields_intercalate⟩

/-- Fields with commas inside of braces, one of them with the braces the wrong way round and an
accent between them, and one that is empty. -/
theorem splitFields_inverts_joining_braces :
    let fields := [bytes "elifs []*struct\x7b condition, thenBranch Expr \x7d",
      bytes "\x7dé,\x7b", []]
    (fields ≠ [] ∧ ∀ f ∈ fields, IsField f) ∧
      splitFields ([byte ','].intercalate fields) = fields := by
  have hfields : ∀ f ∈ [bytes "elifs []*struct\x7b condition, thenBranch Expr \x7d",
      bytes "\x7dé,\x7b", []], IsField f := by decide
  exact ⟨⟨List.cons_ne_nil _ _, hfields⟩,
    splitFields_inverts_joining.2 _ (List.cons_ne_nil _ _) hfields⟩

/-! ## Character by character -/

open Text.Utf8

/-- The characters of the parts of a text with the offsets they start at, from an offset on. -/
def places : Nat → List Part → List (Nat × Char)
  | _, [] => []
  | offset, p :: ps => (offset, p.decoded) :: places (offset + p.text.length) ps

/-- Where a walk through the characters of a text stands. -/
structure Walk where
  /-- The fields behind. -/
  fields : List Bytes
  depth : Int
  /-- The offset at which the next field starts. -/
  start : Nat

namespace Walk

/-- Pass a character. A comma at depth zero ends a field in front of it. -/
def step (s : Bytes) (w : Walk) (place : Nat × Char) : Walk :=
  if place.2 = '\x7b' then { w with depth := w.depth + 1 }
  else if place.2 = '\x7d' then { w with depth := w.depth - 1 }
  else if place.2 = ',' ∧ w.depth = 0 then
    { w with
      fields := w.fields ++ [(s.take place.1).drop w.start]
      start := place.1 + 1 }
  else w

/-- All fields; the last one goes up to the end. -/
def finish (s : Bytes) (w : Walk) : List Bytes := w.fields ++ [s.drop w.start]

end Walk

/-- The fields of a text cut at offsets, given the parts it consists of. -/
def walkFields (s : Bytes) (ps : List Part) : List Bytes :=
  ((places 0 ps).foldl (Walk.step s) ⟨[], 0, 0⟩).finish s

theorem openBraces_of_not_mem {s : Bytes} (hopen : byte '\x7b' ∉ s) (hclose : byte '\x7d' ∉ s) :
    openBraces s = 0 := by
  rw [openBraces, List.count_eq_zero.mpr hopen, List.count_eq_zero.mpr hclose]
  rfl

theorem unbroken_of_not_mem (d : Int) {s : Bytes} (h : byte ',' ∉ s) : Unbroken d s := by
  rintro before after rfl
  exact absurd (List.mem_append_right before List.mem_cons_self) h

/-- The characters that the walk looks for. -/
def marks : List Char := ['\x7b', '\x7d', ',']

/-- Each mark is a single byte, and none of them is what malformed bytes are decoded to. -/
theorem marks_low : ∀ a ∈ marks,
    encode a = [byte a] ∧ (byte a).toNat < 0x80 ∧ replacement ≠ a := by
  simp only [marks, List.forall_mem_cons]
  exact ⟨by decide, by decide, by decide, List.forall_mem_nil _⟩

/-- A part of a text that is no comma at depth zero takes the walk to the depth behind it and ends
no field. -/
structure Passes (s : Bytes) (d : Int) (p : Part) : Prop where
  unbroken : Unbroken d p.text
  step : ∀ (w : Walk) (offset : Nat), w.depth = d →
    w.step s (offset, p.decoded) = { w with depth := d + openBraces p.text }

theorem passes_other (s : Bytes) (d : Int) {p : Part}
    (h : ∀ a ∈ marks, byte a ∉ p.text ∧ p.decoded ≠ a) : Passes s d p := by
  obtain ⟨hopen, hclose, hcomma⟩ : _ ∧ _ ∧ _ := by simpa [marks] using h
  refine ⟨unbroken_of_not_mem d hcomma.1, fun w offset hw => ?_⟩
  rw [openBraces_of_not_mem hopen.1 hclose.1, Walk.step, if_neg hopen.2, if_neg hclose.2,
    if_neg fun h => hcomma.2 h.1, Int.add_zero, ← hw]

theorem passes_malformed (s : Bytes) (d : Int) {b : UInt8} (hb : ¬ b.toNat < 0x80) :
    Passes s d (.malformed b) := by
  refine passes_other s d fun a ha => ?_
  obtain ⟨-, hlow, hne⟩ := marks_low a ha
  refine ⟨fun hmem => hb ?_, hne⟩
  rw [← List.mem_singleton.mp hmem]
  exact hlow

theorem passes_character (s : Bytes) {d : Int} {c : Char} (hc : ¬ (c = ',' ∧ d = 0)) :
    Passes s d (.character c) := by
  by_cases hopen : c = '\x7b'
  · subst hopen
    exact ⟨unbroken_of_not_mem d (by decide), fun w offset hw => by rw [← hw]; rfl⟩
  by_cases hclose : c = '\x7d'
  · subst hclose
    exact ⟨unbroken_of_not_mem d (by decide), fun w offset hw => by rw [← hw]; rfl⟩
  by_cases hcomma : c = ','
  · subst hcomma
    refine ⟨?_, fun w offset hw => ?_⟩
    · intro before after htext hd
      cases before with
      | nil => exact hc ⟨rfl, by simpa using hd⟩
      | cons b before => exact absurd (List.cons.inj htext).2.symm (by simp)
    · subst hw
      have hzero : openBraces (Part.character ',').text = 0 := by decide
      rw [hzero, Int.add_zero]
      exact (if_neg hopen).trans ((if_neg hclose).trans (if_neg hc))
  · refine passes_other s d fun a ha => ?_
    have hne : c ≠ a := by
      rintro rfl
      simp_all [marks]
    obtain ⟨hbyte, hlow, -⟩ := marks_low a ha
    exact ⟨fun hmem => hne (eq_of_byte_mem hbyte hlow hmem), hne⟩

/-- A walk through the given parts, begun inside of a field, finds the fields of the rest. -/
def Walks (rest : Bytes) (ps : List Part) : Prop :=
  ∀ (before part : Bytes) (fields : List Bytes) (d : Int) (s : Bytes),
    s = before ++ (part ++ rest) →
      ((places (before.length + part.length) ps).foldl (Walk.step s)
          ⟨fields, d, before.length⟩).finish s =
        fields ++ (splitFieldsAt d rest).modifyHead (part ++ ·)

theorem walks_cons {p : Part} {rest : Bytes} {ps : List Part}
    (hp : ∀ s d, (p = .character ',' ∧ d = 0) ∨ Passes s d p) (ih : Walks rest ps) :
    Walks (p.text ++ rest) (p :: ps) := by
  intro before part fields d s hs
  rw [places, List.foldl_cons]
  rcases hp s d with ⟨rfl, rfl⟩ | hpass
  · -- The comma ends the part, and the next field starts behind it.
    have htext : (Part.character ',').text = [byte ','] := by decide
    have hcut : (s.take (before.length + part.length)).drop before.length = part := by
      rw [hs, ← List.append_assoc, List.take_left' (by rw [List.length_append]), List.drop_left]
    have hstep : Walk.step s ⟨fields, 0, before.length⟩
        (before.length + part.length, (Part.character ',').decoded) =
        ⟨fields ++ [part], 0, before.length + part.length + 1⟩ := by
      show (⟨fields ++ [(s.take _).drop before.length], 0, _⟩ : Walk) = _
      rw [hcut]
    have hrest := ih (before ++ part ++ [byte ',']) [] (fields ++ [part]) 0 s
      (by rw [hs, htext]; simp)
    rw [modifyHead_nil_append] at hrest
    rw [hstep, htext, List.singleton_append, splitFieldsAt_comma]
    simpa [Nat.add_assoc] using hrest
  · have hrest := ih before (part ++ p.text) fields (d + openBraces p.text) s
      (by rw [hs, List.append_assoc])
    rw [hpass.step _ _ rfl, splitFieldsAt_append hpass.unbroken, List.modifyHead_modifyHead]
    simpa [Nat.add_assoc, Function.comp_def] using hrest

theorem walks_division {rest : Bytes} {ps : List Part} (h : Division rest ps) : Walks rest ps := by
  induction h with
  | nil =>
    intro before part fields d s hs
    rw [hs]
    simp [places, Walk.finish, splitFieldsAt]
  | @character c _ _ _ ih =>
    refine walks_cons (p := .character c) (fun s d => ?_) ih
    by_cases hc : c = ',' ∧ d = 0
    · exact .inl ⟨by rw [hc.1], hc.2⟩
    · exact .inr (passes_character s hc)
  | @malformed b _ _ hb _ ih =>
    have hlow := not_low_of_malformed hb
    exact walks_cons (p := .malformed b) (fun s d => .inr (passes_malformed s d hlow)) ih

/-- Splitting byte by byte gives the fields of a walk through the characters. -/
theorem splitFields_eq_walkFields {s : Bytes} {ps : List Part} (h : Decoding s ps) :
    splitFields s = walkFields s ps := by
  have hwalk := walks_division h.division [] [] [] 0 s rfl
  rw [modifyHead_nil_append] at hwalk
  exact hwalk.symm

end ExprLang.NodeSource
