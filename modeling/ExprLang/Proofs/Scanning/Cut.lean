import ExprLang.Proofs.Scanning.Tokens

/-!
# Pieces that do not merge

A piece is cut off a text if the text goes on with something that cannot belong to it. Most symbols
and all strings are cut off whatever follows; words, numbers and the symbols that `=` would extend
need a text that does not go on with a word character, a point or `=`.
-/

namespace ExprLang.Piece

/-- The piece is the first one of its own text followed by `rest`. -/
def Cut (p : Piece) (rest : Bytes) : Prop :=
  ∃ b s, p.text = b :: s ∧ first b (s ++ rest) = (p, rest)

/-- All pieces are cut off one after the other. -/
def Cuts : List Piece → Bytes → Prop
  | [], _ => True
  | p :: ps, rest => p.Cut (ps.flatMap text ++ rest) ∧ Cuts ps rest

theorem cuts_append {ps qs : List Piece} {rest : Bytes} :
    Cuts (ps ++ qs) rest ↔ Cuts ps (qs.flatMap text ++ rest) ∧ Cuts qs rest := by
  induction ps with
  | nil => simp [Cuts]
  | cons p ps ih =>
    simp only [List.cons_append, Cuts, ih, List.flatMap_append, List.append_assoc, and_assoc]

theorem split_of_cuts {ps : List Piece} {rest : Bytes} (h : Cuts ps rest) :
    split (ps.flatMap text ++ rest) = ps ++ split rest := by
  induction ps with
  | nil => rfl
  | cons p ps ih =>
    obtain ⟨⟨b, s, ht, hf⟩, hs⟩ := h
    rw [List.flatMap_cons, ht, List.cons_append, List.cons_append, List.append_assoc, split_cons,
      hf, ih hs, List.cons_append]

/-- A text that extends no word, number or operator before it. -/
def stops : Bytes → Bool
  | [] => true
  | b :: _ => !isWordByte b && b != byte '.' && b != byte '='

theorem stops_cons {b : UInt8} {s : Bytes} (h : stops (b :: s) = true) :
    isWordByte b = false ∧ b ≠ byte '.' ∧ b ≠ byte '=' := by
  simpa [stops, and_assoc] using h

/-! ## Character classes -/

theorem isLetter_iff {b : UInt8} : isLetter b = true ↔
    (97 ≤ b.toNat ∧ b.toNat ≤ 122) ∨ (65 ≤ b.toNat ∧ b.toNat ≤ 90) ∨ b.toNat = 95 := by
  have ha : (byte 'a').toNat = 97 := rfl
  have hz : (byte 'z').toNat = 122 := rfl
  have hA : (byte 'A').toNat = 65 := rfl
  have hZ : (byte 'Z').toNat = 90 := rfl
  have hu : (byte '_').toNat = 95 := rfl
  simp only [isLetter, Bool.or_eq_true, Bool.and_eq_true, decide_eq_true_eq, beq_iff_eq,
    UInt8.le_iff_toNat_le, ← UInt8.toNat_inj, ha, hz, hA, hZ, hu, or_assoc]

theorem isBlank_iff {b : UInt8} :
    isBlank b = true ↔ b.toNat = 32 ∨ b.toNat = 13 ∨ b.toNat = 9 := by
  have h1 : (byte ' ').toNat = 32 := rfl
  have h2 : (byte '\r').toNat = 13 := rfl
  have h3 : (byte '\t').toNat = 9 := rfl
  simp only [isBlank, Bool.or_eq_true, beq_iff_eq, ← UInt8.toNat_inj, h1, h2, h3, or_assoc]

theorem first_letter {b : UInt8} (h : isLetter b = true) (s : Bytes) :
    first b s = (word ((b :: s).takeWhile isWordByte), (b :: s).dropWhile isWordByte) := by
  have hquote : (byte '"').toNat = 34 := rfl
  have hl := isLetter_iff.mp h
  have hb : ¬ isBlank b = true := by
    rw [isBlank_iff]
    omega
  have hq : b ≠ byte '"' := by
    rw [Ne, ← UInt8.toNat_inj]
    omega
  have hd : ¬ Number.isDigit b = true := by
    rw [Number.isDigit_iff]
    omega
  rw [first, if_neg hb, if_neg hq, if_neg hd, if_pos h]

theorem first_digit {b : UInt8} (h : Number.isDigit b = true) (s : Bytes) :
    first b s = number (b :: s) := by
  have hquote : (byte '"').toNat = 34 := rfl
  have hd := Number.isDigit_iff.mp h
  have hb : ¬ isBlank b = true := by
    rw [isBlank_iff]
    omega
  have hq : b ≠ byte '"' := by
    rw [Ne, ← UInt8.toNat_inj]
    omega
  rw [first, if_neg hb, if_neg hq, if_pos h]

/-! ## Each kind of piece -/

theorem cut_blank (rest : Bytes) : (Piece.blank (byte ' ')).Cut rest := ⟨byte ' ', [], rfl, rfl⟩

theorem takeWhile_word {w rest : Bytes} {p : UInt8 → Bool} (hw : ∀ b ∈ w, p b = true)
    (hr : ∀ b s, rest = b :: s → p b = false) :
    (w ++ rest).takeWhile p = w ∧ (w ++ rest).dropWhile p = rest := by
  rw [List.takeWhile_append_of_pos hw, List.dropWhile_append_of_pos hw]
  cases rest with
  | nil => simp
  | cons b s => simp [hr b s rfl]

theorem cut_word {b : UInt8} {s rest : Bytes} (hb : isLetter b = true)
    (hs : ∀ c ∈ s, isWordByte c = true) (hr : stops rest = true) : (word (b :: s)).Cut rest := by
  have hw : ∀ c ∈ b :: s, isWordByte c = true := by
    intro c hc
    rcases List.mem_cons.mp hc with rfl | hc
    · simp [isWordByte, hb]
    · exact hs c hc
  have hstop : ∀ c t, rest = c :: t → isWordByte c = false := by
    rintro c t rfl
    exact (stops_cons hr).1
  obtain ⟨ht, hd⟩ := takeWhile_word hw hstop
  refine ⟨b, s, rfl, ?_⟩
  rw [first_letter hb, ← List.cons_append, ht, hd]

theorem cut_int {ds rest : Bytes} (h : Number.isNumeral ds = true) (hr : stops rest = true) :
    (Piece.token .int ds (some (.text ds))).Cut rest := by
  have hall := (Number.isNumeral_iff.mp h).2
  have hstop : ∀ c t, rest = c :: t → Number.isDigit c = false := by
    rintro c t rfl
    have hw := (stops_cons hr).1
    simp only [isWordByte, Bool.or_eq_false_iff] at hw
    exact hw.2
  have hfraction : fraction rest = ([], rest) := by
    unfold fraction
    split
    · rename_i point d t
      rw [if_neg]
      rintro ⟨hp, -⟩
      exact (stops_cons hr).2.1 hp
    · rfl
  obtain ⟨ht, hd⟩ := takeWhile_word hall hstop
  obtain ⟨b, s, rfl, hb⟩ := Number.exists_cons_of_isNumeral h
  refine ⟨b, s, rfl, ?_⟩
  rw [first_digit hb, number, ← List.cons_append, ht, hd, hfraction]
  simp

theorem cut_float {ds fs rest : Bytes} (hds : Number.isNumeral ds = true)
    (hfs : Number.isNumeral fs = true) (hr : stops rest = true) :
    (Piece.token .float (ds ++ byte '.' :: fs) (some (.text (ds ++ byte '.' :: fs)))).Cut rest := by
  have hall := (Number.isNumeral_iff.mp hds).2
  have hall' := (Number.isNumeral_iff.mp hfs).2
  have hstop : ∀ c t, rest = c :: t → Number.isDigit c = false := by
    rintro c t rfl
    have hw := (stops_cons hr).1
    simp only [isWordByte, Bool.or_eq_false_iff] at hw
    exact hw.2
  have hpoint : ∀ c t, byte '.' :: (fs ++ rest) = c :: t → Number.isDigit c = false := by
    intro c t h
    rw [← (List.cons.inj h).1]
    decide
  obtain ⟨ht, hd⟩ := takeWhile_word hall hpoint
  obtain ⟨ht', hd'⟩ := takeWhile_word hall' hstop
  obtain ⟨d, t, rfl, hdigit⟩ := Number.exists_cons_of_isNumeral hfs
  have hfraction : fraction (byte '.' :: (d :: t ++ rest)) = (byte '.' :: d :: t, rest) := by
    simp only [List.cons_append] at ht' hd' ⊢
    simp only [fraction, hdigit, ht', hd']
    rfl
  obtain ⟨b, s, rfl, hb⟩ := Number.exists_cons_of_isNumeral hds
  refine ⟨b, s ++ byte '.' :: d :: t, rfl, ?_⟩
  have happ : b :: (s ++ byte '.' :: d :: t ++ rest) = b :: s ++ byte '.' :: (d :: t ++ rest) := by
    simp
  rw [first_digit hb, number, happ, ht, hd, hfraction]
  simp

theorem cut_string {inner : Bytes} (h : byte '"' ∉ inner) (rest : Bytes) :
    (Piece.token .string (byte '"' :: inner ++ [byte '"']) (some (.text inner))).Cut rest := by
  have hw : ∀ b ∈ inner, decide (b ≠ byte '"') = true := by
    intro b hb
    rw [decide_eq_true_eq]
    rintro rfl
    exact h hb
  have hstop : ∀ c t, byte '"' :: rest = c :: t → decide (c ≠ byte '"') = false := by
    intro c t hc
    rw [← (List.cons.inj hc).1]
    decide
  obtain ⟨ht, hd⟩ := takeWhile_word hw hstop
  refine ⟨byte '"', inner ++ [byte '"'], rfl, ?_⟩
  have hf : ∀ s, first (byte '"') s = string s := fun s => rfl
  rw [hf, string, List.append_assoc]
  simp only [List.cons_append, List.nil_append]
  rw [ht, hd]

/-- Symbols that would be other symbols with `=` behind them. -/
def isExtensible (lexeme : Bytes) : Bool :=
  [bytes "=", bytes ">", bytes "<", bytes "!", bytes ":"].contains lexeme

theorem isPrefixOf_append {l x rest : Bytes}
    (h : ∀ c s t, l = x ++ c :: s → rest ≠ c :: t) :
    l.isPrefixOf (x ++ rest) = l.isPrefixOf x := by
  induction x generalizing l with
  | nil =>
    cases l with
    | nil => simp
    | cons c s =>
      cases rest with
      | nil => rfl
      | cons d t =>
        have hcd : c ≠ d := by
          rintro rfl
          exact h c s t rfl rfl
        simp [List.isPrefixOf_cons_cons, hcd]
  | cons a x ih =>
    cases l with
    | nil => simp
    | cons b l =>
      by_cases hab : b = a
      · subst hab
        rw [List.cons_append, List.isPrefixOf_cons_cons, List.isPrefixOf_cons_cons,
          ih fun c s t hl => h c s t (by rw [hl, List.cons_append])]
      · have hne : (b == a) = false := beq_false_of_ne hab
        rw [List.cons_append, List.isPrefixOf_cons_cons, List.isPrefixOf_cons_cons, hne]
        rfl

/-- The only symbols that extend others are those with `=` at the end. -/
theorem symbols_extension {e l : Bytes × TokenKind} (he : e ∈ symbols) (hl : l ∈ symbols)
    {c : UInt8} {s : Bytes} (h : l.1 = e.1 ++ c :: s) : isExtensible e.1 = true ∧ c = byte '=' := by
  have htable : ∀ e ∈ symbols, ∀ l ∈ symbols, e.1 = l.1.take e.1.length →
      ∀ c ∈ (l.1.drop e.1.length).head?, isExtensible e.1 = true ∧ c = byte '=' := by
    decide +kernel
  refine htable e he l hl ?_ c ?_
  · rw [h, List.take_left]
  · rw [h, List.drop_left]
    rfl

theorem first_symbol {e : Bytes × TokenKind} (h : e ∈ symbols) :
    ∃ b s, e.1 = b :: s ∧ ∀ t, first b t = symbol b t := by
  have htable : ∀ e ∈ symbols, ∃ b ∈ e.1.head?, isBlank b = false ∧ b ≠ byte '"' ∧
      Number.isDigit b = false ∧ isLetter b = false := by decide
  obtain ⟨b, hb, hblank, hquote, hdigit, hletter⟩ := htable e h
  obtain ⟨s, hs⟩ := List.head?_eq_some_iff.mp hb
  refine ⟨b, s, hs, fun t => ?_⟩
  simp [first, hblank, hquote, hdigit, hletter]

theorem cut_symbol {e : Bytes × TokenKind} (h : e ∈ symbols) {rest : Bytes}
    (hr : isExtensible e.1 = true → ∀ s, rest ≠ byte '=' :: s) :
    (Piece.token e.2 e.1 none).Cut rest := by
  have hself : ∀ e ∈ symbols, (symbols.find? fun l => l.1.isPrefixOf e.1) = some e := by decide
  obtain ⟨b, s, hs, hfirst⟩ := first_symbol h
  refine ⟨b, s, hs, ?_⟩
  have hfind : (symbols.find? fun l => l.1.isPrefixOf (b :: (s ++ rest))) = some e := by
    rw [← hself e h, ← List.head?_filter, ← List.head?_filter]
    refine congrArg List.head? (List.filter_congr fun l hl => ?_)
    rw [← List.cons_append, ← hs]
    refine isPrefixOf_append fun c s' t heq hrest => ?_
    obtain ⟨hext, rfl⟩ := symbols_extension h hl heq
    exact hr hext t hrest
  rw [hfirst, symbol, hfind]
  simp only
  rw [← List.cons_append, ← hs, List.drop_left]

/-- Every scanned token is cut off a text that stops it. -/
theorem cut_of_stops {kind : TokenKind} {lexeme : Bytes} {payload : Option Payload}
    (h : Spells kind lexeme payload) {rest : Bytes} (hr : stops rest = true) :
    (Piece.token kind lexeme payload).Cut rest := by
  cases h with
  | name h =>
    cases lexeme with
    | nil => cases h
    | cons b s =>
      simp only [isName, Bool.and_eq_true, List.all_eq_true, Option.isNone_iff_eq_none] at h
      obtain ⟨⟨hb, hs⟩, hk⟩ := h
      have hw : word (b :: s) = .token .identifier (b :: s) none := by
        simp only [word, hk, Option.getD_none]
      rw [← hw]
      exact cut_word hb hs hr
  | int h => exact cut_int h hr
  | float hd hf => exact cut_float hd hf hr
  | string h => exact cut_string h rest
  | symbol h =>
    refine cut_symbol h fun _ s => ?_
    rintro rfl
    exact (stops_cons hr).2.2 rfl
  | keyword h hw =>
    have htable : ∀ e ∈ keywords, ∃ b ∈ e.1.head?, isLetter b = true ∧
        ∀ c ∈ e.1.tail, isWordByte c = true := by decide +kernel
    obtain ⟨b, hb, hletter, htail⟩ := htable _ h
    obtain ⟨s, hs⟩ := List.head?_eq_some_iff.mp hb
    simp only at hs
    subst hs
    rw [← hw]
    exact cut_word hletter htail hr

end ExprLang.Piece
