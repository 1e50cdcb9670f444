import Mathlib.Data.List.TakeWhile
import ExprLang.Proofs.Text.Utf8
import ExprLang.Token.Scan

/-!
# Cutting a text into pieces

No piece is empty, so a text is its first piece and then the pieces of what follows. A line break
ends every piece before it except a string: behind a text whose pieces are all closed, a new line is
cut as if it stood alone.
-/

namespace ExprLang

/-! ## Characters -/

namespace Text.Utf8

/-- A character cut short by a line break or the end of the text is no character. -/
theorem decode?_eq_none_of_short {b : UInt8} {s : Bytes} (h : s.length + 1 < width b)
    (t : Bytes) : decode? (b :: s) = none ∧ decode? (b :: s ++ newline :: t) = none := by
  have hshort : ∀ c, encode c ≠ b :: s := by
    intro c hc
    obtain ⟨b', rest, he, hw, -⟩ := encode_eq_cons c
    rw [hc] at he
    cases he
    omega
  have hbreak : ∀ c n, encode c ≠ (b :: s ++ newline :: t).take (s.length + 2 + n) := by
    intro c n hc
    obtain ⟨b', rest, he, -, hrest⟩ := encode_eq_cons c
    have htake : (b :: s ++ newline :: t).take (s.length + 2 + n) =
        b :: (s ++ newline :: t.take n) := by
      rw [show s.length + 2 + n = (b :: s).length + (n + 1) by simp only [List.length_cons]; omega,
        List.take_length_add_append]
      rfl
    rw [htake, he] at hc
    cases hc
    exact hrest newline (by simp) rfl
  constructor
  · have htake : (b :: s).take (width b) = b :: s := List.take_of_length_le (by simp; omega)
    simp only [decode?, htake, if_neg (hshort _)]
  · obtain ⟨n, hn⟩ : ∃ n, width b = s.length + 2 + n := ⟨width b - (s.length + 2), by omega⟩
    simp only [List.cons_append] at hbreak ⊢
    simp only [decode?, hn, if_neg (hbreak _ n)]

theorem decode?_append {b : UInt8} {s : Bytes} (h : width b ≤ s.length + 1) (t : Bytes) :
    decode? (b :: s ++ t) = (decode? (b :: s)).map fun r => (r.1, r.2 ++ t) := by
  have htake : (b :: s ++ t).take (width b) = (b :: s).take (width b) :=
    List.take_append_of_le_length (by simpa using h)
  have hdrop : (b :: s ++ t).drop (width b) = (b :: s).drop (width b) ++ t :=
    List.drop_append_of_le_length (by simpa using h)
  simp only [List.cons_append] at htake hdrop ⊢
  simp only [decode?, htake, hdrop]
  split <;> rfl

end Text.Utf8

namespace Piece

/-! ## No piece is empty -/

theorem word_text (w : Bytes) : (word w).text = w := rfl

theorem symbols_ne_nil {e : Bytes × TokenKind} (h : e ∈ symbols) : e.1 ≠ [] := by
  revert e
  decide

theorem first_ne_nil (b : UInt8) (s : Bytes) : (first b s).1.text ≠ [] := by
  unfold first
  split
  · simp [text]
  · split
    · unfold string
      dsimp only
      split <;> simp [text]
    · split
      · rename_i hd
        simp [number, text, hd]
      · split
        · rename_i hl
          have hw : isWordByte b = true := by simp [isWordByte, hl]
          simp [word_text, hw]
        · unfold symbol
          split
          · rename_i he
            exact symbols_ne_nil (List.mem_of_find?_eq_some he)
          · split
            · exact Text.Utf8.encode_ne_nil _
            · simp [text]

theorem first_length (b : UInt8) (s : Bytes) : (first b s).2.length ≤ s.length := by
  have h := congrArg List.length (first_text b s)
  have hp := List.length_pos_iff.mpr (first_ne_nil b s)
  simp only [List.length_append, List.length_cons] at h
  omega

theorem splitUpTo_eq (fuel fuel' : Nat) (s : Bytes) (h : s.length ≤ fuel) (h' : s.length ≤ fuel') :
    splitUpTo fuel s = splitUpTo fuel' s := by
  induction fuel generalizing fuel' s with
  | zero =>
    obtain rfl : s = [] := List.eq_nil_of_length_eq_zero (by omega)
    cases fuel' <;> rfl
  | succ fuel ih =>
    cases s with
    | nil => cases fuel' <;> rfl
    | cons b s =>
      have hl := first_length b s
      simp only [List.length_cons] at h h'
      obtain ⟨fuel', rfl⟩ : ∃ n, fuel' = n + 1 := ⟨fuel' - 1, by omega⟩
      simp only [splitUpTo]
      rw [ih fuel' (first b s).2 (by omega) (by omega)]

theorem split_nil : split [] = [] := rfl

theorem split_cons (b : UInt8) (s : Bytes) :
    split (b :: s) = (first b s).1 :: split (first b s).2 := by
  simp only [split, List.length_cons, splitUpTo]
  rw [splitUpTo_eq s.length _ _ (first_length b s) (Nat.le_refl _)]

/-- Texts are read piece by piece. -/
theorem split_induct {P : Bytes → Prop} (nil : P [])
    (cons : ∀ b s, P (first b s).2 → P (b :: s)) (s : Bytes) : P s := by
  induction hn : s.length using Nat.strongRecOn generalizing s with
  | ind n ih =>
    subst hn
    cases s with
    | nil => exact nil
    | cons b s => exact cons b s (ih _ (Nat.lt_succ_of_le (first_length b s)) _ rfl)

/-- The pieces concatenate to the text. -/
theorem split_text (s : Bytes) : (split s).flatMap text = s := by
  induction s using split_induct with
  | nil => rfl
  | cons b s ih => rw [split_cons, List.flatMap_cons, ih, first_text]

/-! ## A line break behind a text -/

/-- Everything but a string that is never closed. -/
def isClosed : Piece → Bool
  | .unclosed _ => false
  | _ => true

theorem takeWhile_stop {p : UInt8 → Bool} {c : UInt8} (hc : p c = false) (s t : Bytes) :
    (s ++ c :: t).takeWhile p = s.takeWhile p := by
  induction s with
  | nil => simp [hc]
  | cons b s ih => by_cases hb : p b = true <;> simp [hb, ih]

theorem dropWhile_stop {p : UInt8 → Bool} {c : UInt8} (hc : p c = false) (s t : Bytes) :
    (s ++ c :: t).dropWhile p = s.dropWhile p ++ c :: t := by
  induction s with
  | nil => simp [hc]
  | cons b s ih => by_cases hb : p b = true <;> simp [hb, ih]

theorem fraction_newline (s t : Bytes) :
    fraction (s ++ Text.newline :: t) = ((fraction s).1, (fraction s).2 ++ Text.newline :: t) := by
  have hdigit : Number.isDigit Text.newline = false := by decide
  match s with
  | [] =>
    have hpoint : Text.newline ≠ byte '.' := by decide
    cases t <;> simp [fraction, hpoint]
  | [point] => simp [fraction, hdigit]
  | point :: d :: rest =>
    have ht := takeWhile_stop hdigit (d :: rest) t
    have hd := dropWhile_stop hdigit (d :: rest) t
    simp only [List.cons_append] at ht hd ⊢
    simp only [fraction, ht, hd]
    split <;> rfl

theorem number_newline (s t : Bytes) :
    number (s ++ Text.newline :: t) = ((number s).1, (number s).2 ++ Text.newline :: t) := by
  have hdigit : Number.isDigit Text.newline = false := by decide
  simp only [number, takeWhile_stop hdigit, dropWhile_stop hdigit, fraction_newline]

theorem string_newline (s t : Bytes) (h : (string s).1.isClosed = true) :
    string (s ++ Text.newline :: t) = ((string s).1, (string s).2 ++ Text.newline :: t) := by
  simp only [string] at h ⊢
  cases hd : s.dropWhile (· ≠ byte '"') with
  | nil =>
    rw [hd] at h
    cases h
  | cons close rest =>
    have hs := List.takeWhile_append_dropWhile (p := (· ≠ byte '"')) (l := s)
    have hl := congrArg List.length hs
    rw [hd, List.length_append, List.length_cons] at hl
    rw [List.takeWhile_append, if_neg (by omega), List.dropWhile_append, hd]
    rfl

theorem symbols_tail {e : Bytes × TokenKind} (h : e ∈ symbols) : Text.newline ∉ e.1.tail := by
  revert e
  decide

theorem isPrefixOf_newline {l : Bytes} (hne : l ≠ []) (hl : Text.newline ∉ l.tail) (b : UInt8)
    (s t : Bytes) : l.isPrefixOf (b :: s ++ Text.newline :: t) = l.isPrefixOf (b :: s) := by
  have hstop : ∀ (x s : Bytes), Text.newline ∉ x →
      x.isPrefixOf (s ++ Text.newline :: t) = x.isPrefixOf s := by
    intro x
    induction x with
    | nil =>
      intro s _
      simp
    | cons c x ih =>
      intro s hx
      simp only [List.mem_cons, not_or] at hx
      cases s with
      | nil => simp [List.isPrefixOf_cons_cons, Ne.symm hx.1]
      | cons d s => simp only [List.cons_append, List.isPrefixOf_cons_cons, ih s hx.2]
  cases l with
  | nil => exact absurd rfl hne
  | cons c l => simp only [List.cons_append, List.isPrefixOf_cons_cons, hstop l s hl]

theorem symbol_newline (b : UInt8) (s t : Bytes) :
    symbol b (s ++ Text.newline :: t) = ((symbol b s).1, (symbol b s).2 ++ Text.newline :: t) := by
  have hfind : (symbols.find? fun e => e.1.isPrefixOf (b :: (s ++ Text.newline :: t))) =
      symbols.find? fun e => e.1.isPrefixOf (b :: s) := by
    rw [← List.head?_filter, ← List.head?_filter]
    refine congrArg List.head? (List.filter_congr fun e he => ?_)
    exact isPrefixOf_newline (symbols_ne_nil he) (symbols_tail he) b s t
  simp only [symbol, hfind]
  cases hf : symbols.find? fun e => e.1.isPrefixOf (b :: s) with
  | some e =>
    have hp := List.find?_some hf
    have hl := (List.isPrefixOf_iff_prefix.mp hp).length_le
    simp only
    rw [← List.cons_append, List.drop_append_of_le_length hl]
  | none =>
    simp only
    by_cases hw : Text.Utf8.width b ≤ s.length + 1
    · rw [← List.cons_append, Text.Utf8.decode?_append hw]
      cases Text.Utf8.decode? (b :: s) <;> rfl
    · obtain ⟨h₁, h₂⟩ := Text.Utf8.decode?_eq_none_of_short (Nat.lt_of_not_le hw) t
      rw [← List.cons_append, h₁, h₂]

/-- A line break does not change the piece before it, unless that is a string without an end. -/
theorem first_newline (b : UInt8) (s t : Bytes) (h : (first b s).1.isClosed = true) :
    first b (s ++ Text.newline :: t) = ((first b s).1, (first b s).2 ++ Text.newline :: t) := by
  have hword : isWordByte Text.newline = false := by decide
  unfold first at h ⊢
  split
  · rfl
  · rename_i hblank
    rw [if_neg hblank] at h
    split
    · rename_i hquote
      rw [if_pos hquote] at h
      exact string_newline s t h
    · split
      · exact number_newline (b :: s) t
      · split
        · have ht := takeWhile_stop hword (b :: s) t
          have hd := dropWhile_stop hword (b :: s) t
          simp only [List.cons_append] at ht hd
          rw [ht, hd]
        · exact symbol_newline b s t

/-- A string that is never closed takes the rest of the text. -/
theorem first_unclosed {b : UInt8} {s : Bytes} (h : (first b s).1.isClosed = false) :
    (first b s).2 = [] := by
  have hsymbol : (symbol b s).1.isClosed = true := by
    unfold symbol
    split
    · rfl
    · split <;> rfl
  unfold first at h ⊢
  split
  · rename_i hblank
    rw [if_pos hblank] at h
    cases h
  · rename_i hblank
    rw [if_neg hblank] at h
    split
    · rename_i hquote
      rw [if_pos hquote] at h
      unfold string at h ⊢
      dsimp only at h ⊢
      split
      · rfl
      · rename_i hd
        rw [hd] at h
        cases h
    · rename_i hquote
      rw [if_neg hquote] at h
      split
      · rename_i hdigit
        rw [if_pos hdigit] at h
        cases h
      · rename_i hdigit
        rw [if_neg hdigit] at h
        split
        · rename_i hletter
          rw [if_pos hletter] at h
          cases h
        · rename_i hletter
          rw [if_neg hletter, hsymbol] at h
          cases h

/-- The piece that is one line break. -/
def lineBreak : Piece := .token .newline [Text.newline] none

theorem split_newline (t : Bytes) : split (Text.newline :: t) = lineBreak :: split t := by
  have hf : first Text.newline t = (lineBreak, t) := rfl
  rw [split_cons, hf]

/-- A closed text and the line after it are cut independently. -/
theorem split_append_newline (s t : Bytes) (h : ∀ p ∈ split s, p.isClosed = true) :
    split (s ++ Text.newline :: t) = split s ++ lineBreak :: split t := by
  induction s using split_induct with
  | nil => exact split_newline t
  | cons b s ih =>
    rw [split_cons] at h
    have hf := first_newline b s t (h _ List.mem_cons_self)
    rw [List.cons_append, split_cons, hf, ih fun p hp => h p (List.mem_cons_of_mem _ hp),
      split_cons, List.cons_append]

/-- More lines leave the closed pieces of a text as they are. -/
theorem split_append_closed (s t : Bytes) :
    ∃ ps, split (s ++ Text.newline :: t) = (split s).filter isClosed ++ ps := by
  induction s using split_induct with
  | nil => exact ⟨_, rfl⟩
  | cons b s ih =>
    rw [split_cons b s]
    by_cases h : (first b s).1.isClosed = true
    · obtain ⟨ps, hps⟩ := ih
      refine ⟨ps, ?_⟩
      rw [List.cons_append, split_cons, first_newline b s t h, hps, List.filter_cons_of_pos h,
        List.cons_append]
    · have hrest := first_unclosed (Bool.eq_false_iff.mpr h)
      refine ⟨split (b :: s ++ Text.newline :: t), ?_⟩
      rw [hrest, List.filter_cons_of_neg h, split_nil, List.filter_nil, List.nil_append]

end Piece

end ExprLang
