import ExprLang.Proofs.Scanning.Cut

/-!
# The longest match

The scanner against a token grammar that says nothing about how a text is read. A text is cut into
the longest tokens the rules allow, single blanks, and what no rule accounts for: a stray character
or a string without an end. There is one way to cut a text like this, and the scanner finds it.
-/

namespace ExprLang

namespace Piece

/-! ## The token grammar -/

/-- What a keyword carries besides its text. -/
def keywordPayload : TokenKind → Option Payload
  | .trueWord => some (.bool true)
  | .falseWord => some (.bool false)
  | _ => none

/-- A letter or underscore, and then letters, underscores and digits. -/
def IsWord (w : Bytes) : Prop :=
  ∃ b s, w = b :: s ∧ isLetter b = true ∧ ∀ c ∈ s, isWordByte c = true

/-- At least one digit and nothing else. -/
def IsDigits (ds : Bytes) : Prop := ds ≠ [] ∧ ∀ d ∈ ds, Number.isDigit d = true

/-- The rules of the token grammar: which texts are tokens of a kind, and what they carry. -/
inductive Rule : TokenKind → Bytes → Option Payload → Prop
  | int {ds : Bytes} (h : IsDigits ds) : Rule .int ds (some (.text ds))
  | float {ds fs : Bytes} (hd : IsDigits ds) (hf : IsDigits fs) :
    Rule .float (ds ++ byte '.' :: fs) (some (.text (ds ++ byte '.' :: fs)))
  | name {w : Bytes} (h : IsWord w) (hk : ∀ kind, (w, kind) ∉ keywords) :
    Rule .identifier w none
  | keyword {w : Bytes} {kind : TokenKind} (h : (w, kind) ∈ keywords) :
    Rule kind w (keywordPayload kind)
  | string {inner : Bytes} (h : byte '"' ∉ inner) :
    Rule .string (byte '"' :: inner ++ [byte '"']) (some (.text inner))
  | symbol {lexeme : Bytes} {kind : TokenKind} (h : (lexeme, kind) ∈ symbols) :
    Rule kind lexeme none

variable {kind : TokenKind} {lexeme : Bytes} {payload : Option Payload}

theorem keywords_lookup {w : Bytes} {kind : TokenKind} (h : (w, kind) ∈ keywords) :
    keywords.lookup w = some kind := by
  have htable : ∀ e ∈ keywords, keywords.lookup e.1 = some e.2 := by decide +kernel
  exact htable _ h

theorem isWord_of_keyword {w : Bytes} {kind : TokenKind} (h : (w, kind) ∈ keywords) :
    IsWord w := by
  have htable : ∀ e ∈ keywords, ∃ b ∈ e.1.head?, isLetter b = true ∧
      ∀ c ∈ e.1.tail, isWordByte c = true := by decide +kernel
  obtain ⟨b, hb, hletter, htail⟩ := htable _ h
  obtain ⟨s, hs⟩ := List.head?_eq_some_iff.mp hb
  simp only at hs
  subst hs
  exact ⟨b, s, rfl, hletter, htail⟩

theorem word_keyword {w : Bytes} {kind : TokenKind} (h : (w, kind) ∈ keywords) :
    word w = .token kind w (keywordPayload kind) := by
  rw [word, keywords_lookup h, Option.getD_some]
  cases kind <;> rfl

theorem rule_iff_spells : Rule kind lexeme payload ↔ Spells kind lexeme payload := by
  constructor
  · intro h
    cases h with
    | int h => exact .int (Number.isNumeral_iff.mpr h)
    | float hd hf => exact .float (Number.isNumeral_iff.mpr hd) (Number.isNumeral_iff.mpr hf)
    | name h hk =>
      obtain ⟨b, s, rfl, hb, hs⟩ := h
      have hnone : keywords.lookup (b :: s) = none := by
        cases hl : keywords.lookup (b :: s) with
        | none => rfl
        | some kind => exact absurd (mem_of_lookup hl) (hk kind)
      refine .name ?_
      simp only [isName, hb, hnone, List.all_eq_true.mpr hs]
      rfl
    | keyword h => exact .keyword h (word_keyword h)
    | string h => exact .string h
    | symbol h => exact .symbol h
  · intro h
    cases h with
    | name h =>
      cases lexeme with
      | nil => cases h
      | cons b s =>
        simp only [isName, Bool.and_eq_true, List.all_eq_true, Option.isNone_iff_eq_none] at h
        obtain ⟨⟨hb, hs⟩, hnone⟩ := h
        refine .name ⟨b, s, rfl, hb, hs⟩ fun kind hk => ?_
        rw [keywords_lookup hk] at hnone
        cases hnone
    | int h => exact .int (Number.isNumeral_iff.mp h)
    | float hd hf => exact .float (Number.isNumeral_iff.mp hd) (Number.isNumeral_iff.mp hf)
    | string h => exact .string h
    | symbol h => exact .symbol h
    | keyword h hw =>
      rw [word_keyword h] at hw
      cases hw
      exact .keyword h

/-- The first piece of a text, if it is a token, matches a rule. -/
theorem first_rule {b : UInt8} {s : Bytes} (h : (first b s).1 = .token kind lexeme payload) :
    Rule kind lexeme payload := by
  have hs := first_spelled b s
  rw [h] at hs
  exact rule_iff_spells.mpr hs

theorem Rule.cut_alone (h : Rule kind lexeme payload) : (token kind lexeme payload).Cut [] :=
  cut_of_stops (rule_iff_spells.mp h) rfl

/-- A text matches at most one rule. -/
theorem Rule.unique (h : Rule kind lexeme payload) {kind' : TokenKind} {payload' : Option Payload}
    (h' : Rule kind' lexeme payload') : kind = kind' ∧ payload = payload' := by
  obtain ⟨b, s, ht, hf⟩ := h.cut_alone
  obtain ⟨b', s', ht', hf'⟩ := h'.cut_alone
  obtain ⟨rfl, rfl⟩ := List.cons.inj (ht.symm.trans ht')
  rw [hf] at hf'
  cases hf'
  exact ⟨rfl, rfl⟩

theorem Rule.ne_nil (h : Rule kind lexeme payload) : ∃ b s, lexeme = b :: s := by
  obtain ⟨b, s, ht, -⟩ := h.cut_alone
  exact ⟨b, s, ht⟩

/-! ## No rule matches more than the first piece -/

/-- The first piece of `s` is a token at least as long as `w`. -/
def Covers (b : UInt8) (s w : Bytes) : Prop :=
  ∃ kind lexeme payload, (first b s).1 = .token kind lexeme payload ∧ w.length ≤ lexeme.length

theorem covers_word {b : UInt8} {s : Bytes} (hb : isLetter b = true)
    (hs : ∀ c ∈ s, isWordByte c = true) (rest : Bytes) : Covers b (s ++ rest) (b :: s) := by
  have hall : ∀ c ∈ b :: s, isWordByte c = true := by
    intro c hc
    rcases List.mem_cons.mp hc with rfl | hc
    · simp [isWordByte, hb]
    · exact hs c hc
  refine ⟨_, _, _, by rw [first_letter hb]; rfl, ?_⟩
  rw [← List.cons_append, List.takeWhile_append_of_pos hall]
  simp

theorem covers_int {b : UInt8} {s : Bytes} (hall : ∀ d ∈ b :: s, Number.isDigit d = true)
    (rest : Bytes) : Covers b (s ++ rest) (b :: s) := by
  refine ⟨_, _, _, by rw [first_digit (hall b List.mem_cons_self)]; rfl, ?_⟩
  rw [← List.cons_append, List.takeWhile_append_of_pos hall]
  simp

theorem covers_float {b : UInt8} {s fs : Bytes} (hall : ∀ d ∈ b :: s, Number.isDigit d = true)
    (hf : IsDigits fs) (rest : Bytes) :
    Covers b (s ++ byte '.' :: fs ++ rest) (b :: s ++ byte '.' :: fs) := by
  obtain ⟨hne, hfs⟩ := hf
  obtain ⟨d, t, rfl⟩ := List.exists_cons_of_ne_nil hne
  have hpoint : ∀ c u, byte '.' :: (d :: t ++ rest) = c :: u → Number.isDigit c = false := by
    intro c u h
    rw [← (List.cons.inj h).1]
    decide
  obtain ⟨htake, hdrop⟩ := takeWhile_word hall hpoint
  have hdigit : Number.isDigit d = true := hfs d List.mem_cons_self
  have hfraction : (fraction (byte '.' :: (d :: t ++ rest))).1 =
      byte '.' :: (d :: t ++ rest).takeWhile Number.isDigit := by
    simp only [List.cons_append, fraction, hdigit, and_self, ↓reduceIte]
  have happ : b :: (s ++ byte '.' :: d :: t ++ rest) = b :: s ++ byte '.' :: (d :: t ++ rest) := by
    simp
  refine ⟨_, _, _, by rw [first_digit (hall b List.mem_cons_self)]; rfl, ?_⟩
  rw [happ, htake, hdrop, hfraction, List.takeWhile_append_of_pos hfs]
  simp

theorem covers_string {inner : Bytes} (h : byte '"' ∉ inner) (rest : Bytes) :
    Covers (byte '"') (inner ++ [byte '"'] ++ rest) (byte '"' :: inner ++ [byte '"']) := by
  obtain ⟨b, s, ht, hf⟩ := cut_string h rest
  obtain ⟨rfl, rfl⟩ := List.cons.inj ht
  exact ⟨_, _, _, congrArg Prod.fst hf, Nat.le_refl _⟩

/-- The table of symbols has the longer ones first. -/
theorem symbols_sorted : symbols.Pairwise fun e l => l.1.length ≤ e.1.length := by decide

theorem covers_symbol {b : UInt8} {s : Bytes} (h : (b :: s, kind) ∈ symbols) (rest : Bytes) :
    Covers b (s ++ rest) (b :: s) := by
  obtain ⟨b', s', hs, hfirst⟩ := first_symbol h
  obtain ⟨rfl, rfl⟩ := List.cons.inj hs
  have hstart : (b :: s).isPrefixOf (b :: (s ++ rest)) = true :=
    List.isPrefixOf_iff_prefix.mpr ⟨rest, rfl⟩
  have hsome : (symbols.find? fun e => e.1.isPrefixOf (b :: (s ++ rest))).isSome = true :=
    List.find?_isSome.mpr ⟨_, h, hstart⟩
  obtain ⟨e, he⟩ := Option.isSome_iff_exists.mp hsome
  refine ⟨e.2, e.1, none, by rw [hfirst, symbol, he], ?_⟩
  -- What stands before the symbol that is found is no prefix, so the other one stands behind it.
  obtain ⟨-, before, after, htable, hbefore⟩ := List.find?_eq_some_iff_append.mp he
  have hsorted := symbols_sorted
  rw [htable] at h hsorted
  rcases List.mem_append.mp h with h | h
  · have := hbefore _ h
    simp [hstart] at this
  · rcases List.mem_cons.mp h with h | h
    · rw [← h]
    · exact (List.pairwise_cons.mp (List.pairwise_append.mp hsorted).2.1).1 _ h

theorem Rule.covers (h : Rule kind lexeme payload) {b : UInt8} {s : Bytes}
    (hp : lexeme <+: b :: s) : Covers b s lexeme := by
  obtain ⟨rest, hrest⟩ := hp
  obtain ⟨c, t, hc⟩ := h.ne_nil
  subst hc
  obtain ⟨rfl, rfl⟩ := List.cons.inj hrest
  generalize hw : c :: t = w at h
  cases h with
  | int h =>
    subst hw
    exact covers_int h.2 rest
  | @float ds fs hd hf =>
    obtain ⟨hne, hall⟩ := hd
    obtain ⟨d, ds, rfl⟩ := List.exists_cons_of_ne_nil hne
    obtain ⟨rfl, rfl⟩ := List.cons.inj hw
    exact covers_float hall hf rest
  | name h hk =>
    obtain ⟨b, s, rfl, hb, hs⟩ := h
    obtain ⟨rfl, rfl⟩ := List.cons.inj hw
    exact covers_word hb hs rest
  | keyword h =>
    obtain ⟨b, s, rfl, hb, hs⟩ := isWord_of_keyword h
    obtain ⟨rfl, rfl⟩ := List.cons.inj hw
    exact covers_word hb hs rest
  | string h =>
    obtain ⟨rfl, rfl⟩ := List.cons.inj hw
    exact covers_string h rest
  | symbol h =>
    subst hw
    exact covers_symbol h rest

/-! ## Cutting a text -/

/-- Nothing that starts a text is a token, a blank or a string. -/
def Stray (s : Bytes) : Prop :=
  (∀ kind lexeme payload, Rule kind lexeme payload → ¬ lexeme <+: s) ∧
    ∀ b rest, s = b :: rest → isBlank b = false ∧ b ≠ byte '"'

/-- The ways to cut a text into pieces: the longest tokens, single blanks, characters and malformed
bytes that start nothing else, and at the end perhaps a string that is never closed. -/
inductive Cutting : Bytes → List Piece → Prop
  | nil : Cutting [] []
  | token {kind : TokenKind} {lexeme rest : Bytes} {payload : Option Payload} {ps : List Piece}
    (hrule : Rule kind lexeme payload)
    (hlongest : ∀ k w p, Rule k w p → w <+: lexeme ++ rest → w.length ≤ lexeme.length)
    (h : Cutting rest ps) : Cutting (lexeme ++ rest) (.token kind lexeme payload :: ps)
  | blank {b : UInt8} {rest : Bytes} {ps : List Piece}
    (hb : b = byte ' ' ∨ b = byte '\t' ∨ b = byte '\r') (h : Cutting rest ps) :
    Cutting (b :: rest) (.blank b :: ps)
  | character {c : Char} {rest : Bytes} {ps : List Piece}
    (hstray : Stray (Text.Utf8.encode c ++ rest)) (h : Cutting rest ps) :
    Cutting (Text.Utf8.encode c ++ rest) (.stray c (Text.Utf8.encode c) :: ps)
  | malformed {b : UInt8} {rest : Bytes} {ps : List Piece} (hstray : Stray (b :: rest))
    (hbad : ∀ c, ¬ Text.Utf8.encode c <+: b :: rest) (h : Cutting rest ps) :
    Cutting (b :: rest) (.stray Text.Utf8.replacement [b] :: ps)
  | unclosed {inner : Bytes} (h : byte '"' ∉ inner) :
    Cutting (byte '"' :: inner) [.unclosed (byte '"' :: inner)]

theorem isBlank_eq_true {b : UInt8} :
    isBlank b = true ↔ b = byte ' ' ∨ b = byte '\t' ∨ b = byte '\r' := by
  simp only [isBlank, Bool.or_eq_true, beq_iff_eq]
  tauto

theorem first_lexeme {b : UInt8} {s : Bytes} (h : (first b s).1 = .token kind lexeme payload) :
    lexeme ++ (first b s).2 = b :: s := by
  have ht := first_text b s
  rwa [h] at ht

/-- The first piece of a stray text is a character or a malformed byte. -/
theorem first_stray {b : UInt8} {s : Bytes} (h : Stray (b :: s)) :
    first b s = match Text.Utf8.decode? (b :: s) with
      | some (c, rest) => (.stray c (Text.Utf8.encode c), rest)
      | none => (.stray Text.Utf8.replacement [b], s) := by
  obtain ⟨hrule, hhead⟩ := h
  obtain ⟨hblank, hquote⟩ := hhead b s rfl
  have htoken : ∀ kind lexeme payload, (first b s).1 ≠ .token kind lexeme payload :=
    fun kind lexeme payload hf => hrule _ _ _ (first_rule hf) ⟨_, first_lexeme hf⟩
  have hdigit : ¬ Number.isDigit b = true := fun hd => htoken _ _ _ (by rw [first_digit hd]; rfl)
  have hletter : ¬ isLetter b = true := fun hl => htoken _ _ _ (by rw [first_letter hl]; rfl)
  have hfirst : first b s = symbol b s := by simp [first, hblank, hquote, hdigit, hletter]
  rw [hfirst] at htoken ⊢
  unfold symbol at htoken ⊢
  split
  · rename_i hf
    rw [hf] at htoken
    exact absurd rfl (htoken _ _ _)
  · rfl

theorem stray_of_first {b : UInt8} {s : Bytes} (hblank : isBlank b = false)
    (hquote : b ≠ byte '"')
    (htoken : ∀ kind lexeme payload, (first b s).1 ≠ .token kind lexeme payload) :
    Stray (b :: s) := by
  constructor
  · intro kind lexeme payload hrule hp
    obtain ⟨_, _, _, hf, -⟩ := hrule.covers hp
    exact htoken _ _ _ hf
  · intro c rest h
    obtain ⟨rfl, rfl⟩ := List.cons.inj h
    exact ⟨hblank, hquote⟩

theorem first_quote (s : Bytes) : first (byte '"') s = string s := rfl

theorem string_of_not_mem {s : Bytes} (h : byte '"' ∉ s) :
    string s = (.unclosed (byte '"' :: s), []) := by
  have hs : ∀ b ∈ s, decide (b ≠ byte '"') = true := by
    intro b hb
    rw [decide_eq_true_eq]
    rintro rfl
    exact h hb
  rw [string, List.takeWhile_eq_self_iff.mpr hs, List.dropWhile_eq_nil_iff.mpr hs]

theorem Cutting.eq_nil {ps : List Piece} (h : Cutting [] ps) : ps = [] := by
  generalize hs : ([] : Bytes) = s at h
  cases h with
  | nil => rfl
  | token hrule =>
    obtain ⟨b, s, rfl⟩ := hrule.ne_nil
    cases hs
  | @character c =>
    obtain ⟨b, t, he, -⟩ := Text.Utf8.encode_eq_cons c
    rw [he] at hs
    cases hs
  | blank _ => cases hs
  | malformed _ => cases hs
  | unclosed _ => cases hs

/-- A quote that starts no token starts a string that is never closed. -/
theorem Cutting.quote {s : Bytes} {ps : List Piece}
    (htoken : ∀ kind lexeme payload, (first (byte '"') s).1 ≠ .token kind lexeme payload)
    (h : Cutting (first (byte '"') s).2 ps) :
    Cutting (byte '"' :: s) ((first (byte '"') s).1 :: ps) := by
  have hs : byte '"' ∉ s := by
    intro hmem
    obtain ⟨inner, rest, rfl, hinner⟩ := List.eq_append_cons_of_mem hmem
    obtain ⟨_, _, _, hf, -⟩ := covers_string hinner rest
    rw [List.append_assoc] at hf
    exact htoken _ _ _ hf
  rw [first_quote, string_of_not_mem hs] at h ⊢
  rw [h.eq_nil]
  exact .unclosed hs

/-- The first piece is one that may be cut off. -/
theorem Cutting.first {b : UInt8} {s : Bytes} {ps : List Piece}
    (h : Cutting (first b s).2 ps) : Cutting (b :: s) ((first b s).1 :: ps) := by
  by_cases htoken : ∃ kind lexeme payload, (Piece.first b s).1 = .token kind lexeme payload
  · obtain ⟨kind, lexeme, payload, hf⟩ := htoken
    rw [hf, ← first_lexeme hf]
    refine .token (first_rule hf) (fun k w p hrule hp => ?_) h
    rw [first_lexeme hf] at hp
    obtain ⟨_, _, _, hf', hle⟩ := hrule.covers hp
    rw [hf] at hf'
    cases hf'
    exact hle
  · simp only [not_exists] at htoken
    by_cases hblank : isBlank b = true
    · have hf : Piece.first b s = (.blank b, s) := by rw [Piece.first, if_pos hblank]
      rw [hf] at h ⊢
      exact .blank (isBlank_eq_true.mp hblank) h
    · by_cases hquote : b = byte '"'
      · subst hquote
        exact .quote htoken h
      · have hstray := stray_of_first (Bool.eq_false_iff.mpr hblank) hquote htoken
        have hf := first_stray hstray
        cases hd : Text.Utf8.decode? (b :: s) with
        | some r =>
          obtain ⟨c, rest⟩ := r
          rw [hd] at hf
          rw [hf] at h ⊢
          have hs := Text.Utf8.decode?_eq_some hd
          rw [hs] at hstray ⊢
          exact .character hstray h
        | none =>
          rw [hd] at hf
          rw [hf] at h ⊢
          refine .malformed hstray ?_ h
          rintro c ⟨rest, hc⟩
          rw [← hc, Text.Utf8.decode?_encode] at hd
          cases hd

/-- There is one way to cut a text, and it is found by taking the first piece again and again. -/
theorem cutting_iff {s : Bytes} {ps : List Piece} : Cutting s ps ↔ ps = split s := by
  constructor
  · intro h
    induction h with
    | nil => rfl
    | @token kind lexeme rest payload ps hrule hlongest _ ih =>
      obtain ⟨b, s, rfl⟩ := hrule.ne_nil
      have hstart : b :: s <+: b :: (s ++ rest) := ⟨rest, rfl⟩
      obtain ⟨kind', lexeme', payload', hf, hle⟩ := hrule.covers hstart
      have happ := first_lexeme hf
      have hle' := hlongest _ _ _ (first_rule hf) ⟨_, happ⟩
      obtain ⟨rfl, hrest⟩ := List.append_inj happ (Nat.le_antisymm hle' hle)
      obtain ⟨rfl, rfl⟩ := (first_rule hf).unique hrule
      have hsplit := split_cons b (s ++ rest)
      rw [hf, hrest, ← ih] at hsplit
      exact hsplit.symm
    | @blank b rest ps hb _ ih =>
      have hf : Piece.first b rest = (.blank b, rest) := by
        rw [Piece.first, if_pos (isBlank_eq_true.mpr hb)]
      rw [split_cons, hf, ih]
    | @character c rest ps hstray _ ih =>
      obtain ⟨b, t, he, -⟩ := Text.Utf8.encode_eq_cons c
      have hd := Text.Utf8.decode?_encode c rest
      rw [he, List.cons_append] at hstray hd
      rw [he, List.cons_append, split_cons, first_stray hstray, hd, ih, ← he]
    | @malformed b rest ps hstray hbad _ ih =>
      have hd : Text.Utf8.decode? (b :: rest) = none := by
        cases hd : Text.Utf8.decode? (b :: rest) with
        | none => rfl
        | some r => exact absurd ⟨r.2, (Text.Utf8.decode?_eq_some hd).symm⟩ (hbad r.1)
      rw [split_cons, first_stray hstray, hd, ih]
    | @unclosed inner h => rw [split_cons, first_quote, string_of_not_mem h, split_nil]
  · rintro rfl
    induction s using split_induct with
    | nil => exact .nil
    | cons b s ih =>
      rw [split_cons]
      exact ih.first

/-! ## What is reported -/

def isToken : Piece → Bool
  | .token _ _ _ => true
  | _ => false

/-- What is wrong with a piece, the text it is reported at and whether that is the end. -/
def fault? : Piece → Option (SyntaxCause × Bytes × Bool)
  | .stray c text => some (.unexpectedCharacter c, text, false)
  | .unclosed _ => some (.unterminatedString, [], true)
  | _ => none

end Piece

/-- The piece a token was read from. -/
def Token.piece (t : Token) : Piece := .token t.kind t.lexeme t.payload

/-- An error without its line. -/
def SyntaxError.fault (e : SyntaxError) : SyntaxCause × Bytes × Bool :=
  (e.cause, e.lexeme, e.atEnd)

namespace Piece

theorem tokensFrom_piece (line : Int) (ps : List Piece) :
    (tokensFrom line ps).map Token.piece = ps.filter isToken := by
  induction ps generalizing line with
  | nil => rfl
  | cons p ps ih =>
    have hp : (tokensFrom line [p]).map Token.piece = [p].filter isToken := by cases p <;> rfl
    rw [← List.singleton_append, tokensFrom_append, List.map_append, hp, ih, List.filter_append]

theorem errorsFrom_fault (line : Int) (ps : List Piece) :
    (errorsFrom line ps).map SyntaxError.fault = ps.filterMap fault? := by
  induction ps generalizing line with
  | nil => rfl
  | cons p ps ih =>
    have hp : (errorsFrom line [p]).map SyntaxError.fault = [p].filterMap fault? := by
      cases p <;> rfl
    rw [← List.singleton_append, errorsFrom_append, List.map_append, hp, ih,
      List.filterMap_append]

end Piece

open Piece in
/-- A text is cut in exactly one way into longest tokens, blanks, stray characters and perhaps an
unclosed string at the end. The pieces make up the text; the scanned tokens are those among them,
closed by the only end token, and the errors are the stray and the unclosed ones, in order. -/
theorem scan_longest_match (s : Bytes) :
    ∃ ps, Cutting s ps ∧ (∀ qs, Cutting s qs → qs = ps) ∧ ps.flatMap text = s ∧
      (scan s).tokens.map Token.piece = ps.filter isToken ++ [.token .eof [] none] ∧
      (∀ t ∈ (scan s).tokens.dropLast, t.kind ≠ .eof) ∧
      (scan s).errors.map SyntaxError.fault = ps.filterMap fault? := by
  refine ⟨split s, cutting_iff.mpr rfl, fun qs => cutting_iff.mp, split_text s, ?_, ?_, ?_⟩
  · rw [scan_tokens, List.map_append, bodyTokens, tokensFrom_piece]
    rfl
  · intro t ht
    rw [scan_tokens, List.dropLast_concat] at ht
    exact (bodyTokens_spells ht).ne_eof
  · exact errorsFrom_fault 1 (split s)

/-- A point that no digit follows is no part of a number. -/
example : Piece.split (bytes "1.5.") =
    [.token .float (bytes "1.5") (some (.text (bytes "1.5"))), .stray '.' (bytes ".")] := by
  decide

end ExprLang
