import ExprLang.Proofs.Scanning.Tokens

/-!
# A text on one line

With every line break replaced by a blank, a text is cut in the same places, provided that no token
but a line break contains one: both bytes end every word, number and operator.
-/

namespace ExprLang

namespace Text

/-- The text with a blank for every line break. -/
def flat (s : Bytes) : Bytes := replaceByte newline (byte ' ') s

theorem flat_cons (b : UInt8) (s : Bytes) :
    flat (b :: s) = (if b = newline then byte ' ' else b) :: flat s := rfl

theorem flat_append (s t : Bytes) : flat (s ++ t) = flat s ++ flat t := List.map_append

theorem flat_drop (n : Nat) (s : Bytes) : flat (s.drop n) = (flat s).drop n := List.map_drop

theorem flat_of_not_mem {s : Bytes} (h : newline ∉ s) : flat s = s := by
  induction s with
  | nil => rfl
  | cons b s ih =>
    rw [List.mem_cons, not_or] at h
    rw [flat_cons, if_neg (Ne.symm h.1), ih h.2]

theorem newline_not_mem_flat (s : Bytes) : newline ∉ flat s := by
  induction s with
  | nil => simp [flat, replaceByte]
  | cons b s ih =>
    rw [flat_cons, List.mem_cons, not_or]
    refine ⟨?_, ih⟩
    split
    · decide
    · rename_i hb
      exact Ne.symm hb

variable {p : UInt8 → Bool} (hp : p newline = p (byte ' '))
include hp

theorem flat_invariant (b : UInt8) : p (if b = newline then byte ' ' else b) = p b := by
  split
  · rename_i hb
    rw [hb, hp]
  · rfl

theorem takeWhile_flat (s : Bytes) : (flat s).takeWhile p = flat (s.takeWhile p) := by
  induction s with
  | nil => rfl
  | cons b s ih =>
    rw [flat_cons, List.takeWhile_cons, List.takeWhile_cons, flat_invariant hp]
    split
    · rw [ih, flat_cons]
    · rfl

theorem dropWhile_flat (s : Bytes) : (flat s).dropWhile p = flat (s.dropWhile p) := by
  induction s with
  | nil => rfl
  | cons b s ih =>
    rw [flat_cons, List.dropWhile_cons, List.dropWhile_cons, flat_invariant hp]
    split
    · exact ih
    · rfl

end Text

/-- What a token carries, on one line. -/
def Payload.flat : Payload → Payload
  | .bool b => .bool b
  | .text s => .text (Text.flat s)

namespace Piece

open Text (flat)

/-- What becomes of a piece. -/
def flatten : Piece → Piece
  | .token .newline _ _ => .blank (byte ' ')
  | .token kind lexeme payload => .token kind (flat lexeme) (payload.map Payload.flat)
  | .blank b => .blank b
  | .stray c text => .stray c text
  | .unclosed text => .unclosed (flat text)

theorem flatten_token {kind : TokenKind} (h : kind ≠ .newline) (lexeme : Bytes)
    (payload : Option Payload) :
    (Piece.token kind lexeme payload).flatten =
      .token kind (flat lexeme) (payload.map Payload.flat) := by
  cases kind <;> first | rfl | exact absurd rfl h

/-! ## Each kind of piece -/

theorem fraction_flat (s : Bytes) :
    fraction (flat s) = (flat (fraction s).1, flat (fraction s).2) := by
  have hdigit : Number.isDigit Text.newline = Number.isDigit (byte ' ') := by decide
  match s with
  | [] => rfl
  | [point] => rfl
  | point :: d :: rest =>
    have hpoint : ((if point = Text.newline then byte ' ' else point) = byte '.') ↔
        point = byte '.' := by
      split
      · rename_i hb
        rw [hb]
        decide
      · rfl
    have hd := Text.flat_invariant hdigit d
    have htake := Text.takeWhile_flat hdigit (d :: rest)
    have hdrop := Text.dropWhile_flat hdigit (d :: rest)
    rw [Text.flat_cons] at htake hdrop
    simp only [Text.flat_cons, fraction, hpoint, hd, htake, hdrop]
    split
    · simp only [Text.flat_cons]
    · rfl

theorem number_flat (s : Bytes) :
    number (flat s) = ((number s).1.flatten, flat (number s).2) := by
  have hdigit : Number.isDigit Text.newline = Number.isDigit (byte ' ') := by decide
  have hnil : ∀ t : Bytes, flat t = [] ↔ t = [] := fun t => List.map_eq_nil_iff
  have hkind : (if (fraction (s.dropWhile Number.isDigit)).1 = [] then TokenKind.int
      else .float) ≠ .newline := by
    split <;> decide
  simp only [number, flatten_token hkind, Text.takeWhile_flat hdigit, Text.dropWhile_flat hdigit,
    fraction_flat, Text.flat_append, hnil, Option.map_some, Payload.flat]

theorem string_flat (s : Bytes) :
    string (flat s) = ((string s).1.flatten, flat (string s).2) := by
  have hquote : decide (Text.newline ≠ byte '"') = decide (byte ' ' ≠ byte '"') := by decide
  have htake := Text.takeWhile_flat (p := fun c => decide (c ≠ byte '"')) hquote s
  have hdrop := Text.dropWhile_flat (p := fun c => decide (c ≠ byte '"')) hquote s
  simp only [string]
  rw [htake, hdrop]
  cases hd : s.dropWhile fun c => decide (c ≠ byte '"') with
  | nil => rfl
  | cons close rest =>
    have hkind : TokenKind.string ≠ .newline := by decide
    simp only [Text.flat_cons, flatten_token hkind, Text.flat_append, Option.map_some,
      Payload.flat]
    rfl

theorem isPrefixOf_flat {l : Bytes} (hn : Text.newline ∉ l) (hs : byte ' ' ∉ l) (s : Bytes) :
    l.isPrefixOf (flat s) = l.isPrefixOf s := by
  induction l generalizing s with
  | nil => simp
  | cons c l ih =>
    rw [List.mem_cons, not_or] at hn hs
    cases s with
    | nil => rfl
    | cons b s =>
      rw [Text.flat_cons, List.isPrefixOf_cons_cons, List.isPrefixOf_cons_cons, ih hn.2 hs.2]
      split
      · rename_i hb
        rw [beq_false_of_ne (Ne.symm hs.1), hb, beq_false_of_ne (Ne.symm hn.1)]
      · rfl

theorem symbols_flat {e : Bytes × TokenKind} (h : e ∈ symbols) :
    Text.newline ∉ e.1.tail ∧ byte ' ' ∉ e.1.tail := by
  revert e
  decide

/-- A symbol that does not start with a line break has none. -/
theorem symbol_flatten {e : Bytes × TokenKind} (he : e ∈ symbols) {b : UInt8}
    (hb : b ≠ Text.newline) {s : Bytes} (h : e.1.isPrefixOf (b :: s) = true) :
    flat e.1 = e.1 ∧ e.2 ≠ .newline := by
  have hnewline : ∀ e ∈ symbols, e.2 = .newline → e.1 = [Text.newline] := by decide
  obtain ⟨hn, -⟩ := symbols_flat he
  cases hl : e.1 with
  | nil => exact absurd hl (symbols_ne_nil he)
  | cons c l =>
    rw [hl] at h hn
    have hc : c = b := by
      rw [List.isPrefixOf_cons_cons, Bool.and_eq_true, beq_iff_eq] at h
      exact h.1
    constructor
    · refine Text.flat_of_not_mem ?_
      rw [List.mem_cons, not_or, hc]
      exact ⟨Ne.symm hb, hn⟩
    · intro hk
      rw [hnewline e he hk] at hl
      exact hb (hc.symm.trans (List.cons.inj hl).1.symm)

theorem word_flatten {w : Bytes} (h : Text.newline ∉ w) : (word w).flatten = word w := by
  have hkinds : ∀ e ∈ keywords, e.2 ≠ .newline := by decide
  have hkind : (keywords.lookup w).getD .identifier ≠ .newline := by
    cases hk : keywords.lookup w with
    | none => decide
    | some kind => exact hkinds _ (mem_of_lookup hk)
  simp only [word, flatten_token hkind, Text.flat_of_not_mem h]
  congr 1
  split <;> rfl

theorem symbol_flat {b : UInt8} (hb : b ≠ Text.newline) (s : Bytes)
    (h : ∀ c t, (symbol b s).1 ≠ .stray c t) :
    symbol b (flat s) = ((symbol b s).1.flatten, flat (symbol b s).2) := by
  have hfind : (symbols.find? fun e => e.1.isPrefixOf (b :: flat s)) =
      symbols.find? fun e => e.1.isPrefixOf (b :: s) := by
    rw [← List.head?_filter, ← List.head?_filter]
    refine congrArg List.head? (List.filter_congr fun e he => ?_)
    have htail := symbols_flat he
    cases hl : e.1 with
    | nil => rfl
    | cons c l =>
      rw [hl, List.tail_cons] at htail
      rw [List.isPrefixOf_cons_cons, List.isPrefixOf_cons_cons, isPrefixOf_flat htail.1 htail.2]
  unfold symbol at h ⊢
  rw [hfind]
  cases hf : symbols.find? fun e => e.1.isPrefixOf (b :: s) with
  | some e =>
    have hmem := List.mem_of_find?_eq_some hf
    have hprefix := List.find?_some hf
    obtain ⟨hlexeme, hkind⟩ := symbol_flatten hmem hb hprefix
    have hcons : flat (b :: s) = b :: flat s := by rw [Text.flat_cons, if_neg hb]
    simp only [flatten_token hkind, hlexeme, Option.map_none, Text.flat_drop, hcons]
  | none =>
    simp only [hf] at h
    split at h
    · exact absurd rfl (h _ _)
    · exact absurd rfl (h _ _)

theorem first_flat {b : UInt8} (hb : b ≠ Text.newline) (s : Bytes)
    (h : ∀ c t, (first b s).1 ≠ .stray c t) :
    first b (flat s) = ((first b s).1.flatten, flat (first b s).2) := by
  unfold first at h ⊢
  split
  · rfl
  · rename_i hblank
    rw [if_neg hblank] at h
    split
    · exact string_flat s
    · rename_i hquote
      rw [if_neg hquote] at h
      have hcons : flat (b :: s) = b :: flat s := by rw [Text.flat_cons, if_neg hb]
      split
      · rw [← hcons]
        exact number_flat (b :: s)
      · rename_i hdigit
        rw [if_neg hdigit] at h
        split
        · have hword : isWordByte Text.newline = isWordByte (byte ' ') := by decide
          have hline : Text.newline ∉ (b :: s).takeWhile isWordByte := fun hmem =>
            absurd (List.mem_takeWhile_imp hmem) (by decide)
          rw [← hcons, Text.takeWhile_flat hword, Text.dropWhile_flat hword,
            Text.flat_of_not_mem hline, word_flatten hline]
        · rename_i hletter
          rw [if_neg hletter] at h
          exact symbol_flat hb s h

/-- A text on one line is cut in the same places. -/
theorem split_flat {s : Bytes} (h : ∀ p ∈ split s, ∀ c t, p ≠ .stray c t) :
    split (flat s) = (split s).map flatten := by
  induction s using split_induct with
  | nil => rfl
  | cons b s ih =>
    rw [split_cons] at h ⊢
    obtain ⟨hfirst, hrest⟩ := List.forall_mem_cons.mp h
    rw [List.map_cons, ← ih hrest]
    by_cases hb : b = Text.newline
    · subst hb
      have hbreak : first Text.newline s = (lineBreak, s) := rfl
      have hblank : first (byte ' ') (flat s) = (.blank (byte ' '), flat s) := rfl
      rw [Text.flat_cons, if_pos rfl, split_cons, hblank, hbreak]
      rfl
    · rw [Text.flat_cons, if_neg hb, split_cons, first_flat hb s hfirst]

end Piece

end ExprLang
