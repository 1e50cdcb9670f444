import ExprLang.Proofs.Numbers.Numerals
import ExprLang.Proofs.Parsing.Lines
import ExprLang.Proofs.Scanning.Pieces

/-!
# The tokens of a text

Where a piece starts depends only on the line breaks before it, so the tokens and errors of two
texts, one after the other, are those of the first and the shifted ones of the second. The kind of a
scanned token and its lexeme always belong together.
-/

namespace ExprLang

namespace Piece

/-! ## Lines -/

/-- The tokens among pieces that start on the given line. -/
def tokensFrom (line : Int) (ps : List Piece) : List Token :=
  (locate line ps).filterMap fun p => p.2.token? p.1

/-- The errors among pieces that start on the given line. -/
def errorsFrom (line : Int) (ps : List Piece) : List SyntaxError :=
  (locate line ps).filterMap fun p => p.2.error? p.1

theorem scan_eq (s : Bytes) :
    scan s = ⟨tokensFrom 1 (split s) ++ [.eof (1 + Text.newlines s)], errorsFrom 1 (split s)⟩ := rfl

theorem tokensFrom_cons (line : Int) (p : Piece) (ps : List Piece) :
    tokensFrom line (p :: ps) =
      (p.token? line).toList ++ tokensFrom (line + Text.newlines p.text) ps := by
  simp only [tokensFrom, locate, List.filterMap_cons]
  cases p.token? line <;> rfl

theorem errorsFrom_cons (line : Int) (p : Piece) (ps : List Piece) :
    errorsFrom line (p :: ps) =
      (p.error? line).toList ++ errorsFrom (line + Text.newlines p.text) ps := by
  simp only [errorsFrom, locate, List.filterMap_cons]
  cases p.error? line <;> rfl

theorem newlines_append (s t : Bytes) :
    Text.newlines (s ++ t) = Text.newlines s + Text.newlines t := List.count_append

theorem locate_append (line : Int) (ps qs : List Piece) :
    locate line (ps ++ qs) =
      locate line ps ++ locate (line + Text.newlines (ps.flatMap text)) qs := by
  induction ps generalizing line with
  | nil => simp [locate, Text.newlines]
  | cons p ps ih =>
    simp only [List.cons_append, locate, ih, List.flatMap_cons, newlines_append]
    rw [show line + ↑(Text.newlines p.text) + ↑(Text.newlines (ps.flatMap text)) =
      line + ↑(Text.newlines p.text + Text.newlines (ps.flatMap text)) by omega]

theorem tokensFrom_append (line : Int) (ps qs : List Piece) :
    tokensFrom line (ps ++ qs) =
      tokensFrom line ps ++ tokensFrom (line + Text.newlines (ps.flatMap text)) qs := by
  simp only [tokensFrom, locate_append, List.filterMap_append]

theorem errorsFrom_append (line : Int) (ps qs : List Piece) :
    errorsFrom line (ps ++ qs) =
      errorsFrom line ps ++ errorsFrom (line + Text.newlines (ps.flatMap text)) qs := by
  simp only [errorsFrom, locate_append, List.filterMap_append]

theorem token?_shift (line k : Int) (p : Piece) :
    p.token? (line + k) = (p.token? line).map (Token.mapLine (· + k)) := by
  cases p with
  | token kind lexeme payload =>
    simp only [token?, Option.map_some, Token.mapLine]
    split
    · rfl
    · rw [show line + k + ↑(Text.newlines lexeme) = line + ↑(Text.newlines lexeme) + k by omega]
  | blank b => rfl
  | stray c t => rfl
  | unclosed t => rfl

theorem error?_shift (line k : Int) (p : Piece) :
    p.error? (line + k) = (p.error? line).map (SyntaxError.mapLine (· + k)) := by
  cases p with
  | token kind lexeme payload => rfl
  | blank b => rfl
  | stray c t => rfl
  | unclosed t =>
    simp only [error?, Option.map_some, SyntaxError.mapLine]
    rw [show line + k + ↑(Text.newlines t) = line + ↑(Text.newlines t) + k by omega]

theorem locate_shift (line k : Int) (ps : List Piece) :
    locate (line + k) ps = (locate line ps).map fun p => (p.1 + k, p.2) := by
  induction ps generalizing line with
  | nil => rfl
  | cons p ps ih =>
    simp only [locate, List.map_cons, ← ih]
    rw [show line + k + ↑(Text.newlines p.text) = line + ↑(Text.newlines p.text) + k by omega]

theorem tokensFrom_shift (line k : Int) (ps : List Piece) :
    tokensFrom (line + k) ps = (tokensFrom line ps).map (Token.mapLine (· + k)) := by
  simp only [tokensFrom, locate_shift, List.filterMap_map, List.map_filterMap]
  refine congrArg (fun f => List.filterMap f _) (funext fun p => ?_)
  exact token?_shift p.1 k p.2

theorem errorsFrom_shift (line k : Int) (ps : List Piece) :
    errorsFrom (line + k) ps = (errorsFrom line ps).map (SyntaxError.mapLine (· + k)) := by
  simp only [errorsFrom, locate_shift, List.filterMap_map, List.map_filterMap]
  refine congrArg (fun f => List.filterMap f _) (funext fun p => ?_)
  exact error?_shift p.1 k p.2

theorem mem_of_mem_locate {line n : Int} {p : Piece} {ps : List Piece}
    (h : (n, p) ∈ locate line ps) : p ∈ ps := by
  induction ps generalizing line with
  | nil => cases h
  | cons q ps ih =>
    simp only [locate, List.mem_cons, Prod.mk.injEq] at h
    rcases h with ⟨-, rfl⟩ | h
    · exact List.mem_cons_self
    · exact List.mem_cons_of_mem q (ih h)

theorem exists_mem_locate (line : Int) {p : Piece} {ps : List Piece} (h : p ∈ ps) :
    ∃ n, (n, p) ∈ locate line ps := by
  induction ps generalizing line with
  | nil => cases h
  | cons q ps ih =>
    rcases List.mem_cons.mp h with rfl | h
    · exact ⟨line, List.mem_cons_self⟩
    · obtain ⟨n, hn⟩ := ih (line + Text.newlines q.text) h
      exact ⟨n, List.mem_cons_of_mem _ hn⟩

theorem errorsFrom_eq_nil {line : Int} {ps : List Piece}
    (h : ∀ p ∈ ps, ∀ n, p.error? n = none) : errorsFrom line ps = [] := by
  rw [errorsFrom, List.filterMap_eq_nil_iff]
  intro p hp
  exact h p.2 (mem_of_mem_locate hp) p.1

theorem exists_error_of_stray {s text : Bytes} {c : Char} (h : .stray c text ∈ split s) :
    ∃ n, ⟨.unexpectedCharacter c, n, text, false⟩ ∈ (scan s).errors := by
  obtain ⟨n, hn⟩ := exists_mem_locate 1 h
  exact ⟨n, List.mem_filterMap.mpr ⟨_, hn, rfl⟩⟩

/-- A token comes from a piece with its kind, lexeme and payload. -/
theorem mem_of_mem_tokensFrom {line : Int} {t : Token} {ps : List Piece}
    (h : t ∈ tokensFrom line ps) : .token t.kind t.lexeme t.payload ∈ ps := by
  simp only [tokensFrom, List.mem_filterMap, Prod.exists] at h
  obtain ⟨n, p, hp, ht⟩ := h
  cases p with
  | token kind lexeme payload =>
    cases ht
    exact mem_of_mem_locate hp
  | blank b => cases ht
  | stray c t => cases ht
  | unclosed t => cases ht

/-! ## Kinds and lexemes -/

/-- A word that may name a variable. -/
def isName : Bytes → Bool
  | [] => false
  | b :: s => isLetter b && s.all isWordByte && (keywords.lookup (b :: s)).isNone

/-- Which lexemes and payloads the tokens of a kind have. -/
inductive Spells : TokenKind → Bytes → Option Payload → Prop
  | name {w : Bytes} (h : isName w = true) : Spells .identifier w none
  | int {ds : Bytes} (h : Number.isNumeral ds = true) : Spells .int ds (some (.text ds))
  | float {ds fs : Bytes} (hd : Number.isNumeral ds = true) (hf : Number.isNumeral fs = true) :
    Spells .float (ds ++ byte '.' :: fs) (some (.text (ds ++ byte '.' :: fs)))
  | string {inner : Bytes} (h : byte '"' ∉ inner) :
    Spells .string (byte '"' :: inner ++ [byte '"']) (some (.text inner))
  | symbol {e : Bytes × TokenKind} (h : e ∈ symbols) : Spells e.2 e.1 none
  | keyword {w : Bytes} {kind : TokenKind} {payload : Option Payload} (h : (w, kind) ∈ keywords)
    (hw : word w = .token kind w payload) : Spells kind w payload

/-- Pieces that are tokens have one of the lexemes of their kind. -/
def Spelled : Piece → Prop
  | .token kind lexeme payload => Spells kind lexeme payload
  | _ => True

theorem mem_of_lookup {w : Bytes} {kind : TokenKind} {table : List (Bytes × TokenKind)}
    (h : table.lookup w = some kind) : (w, kind) ∈ table := by
  obtain ⟨l₁, l₂, rfl, -⟩ := List.lookup_eq_some_iff.mp h
  simp

theorem word_spelled {b : UInt8} {s : Bytes} (hb : isLetter b = true)
    (hs : s.all isWordByte = true) : (word (b :: s)).Spelled := by
  cases hk : keywords.lookup (b :: s) with
  | none =>
    simp only [word, hk, Spelled]
    exact Spells.name (by simp only [isName, hb, hs, hk]; rfl)
  | some kind =>
    obtain ⟨payload, hw⟩ : ∃ payload, word (b :: s) = .token kind (b :: s) payload := by
      simp only [word, hk, Option.getD_some]
      exact ⟨_, rfl⟩
    rw [hw]
    exact Spells.keyword (mem_of_lookup hk) hw

theorem number_spelled {b : UInt8} {s : Bytes} (hb : Number.isDigit b = true) :
    (number (b :: s)).1.Spelled := by
  have hnum : ∀ c t, Number.isDigit c = true →
      Number.isNumeral ((c :: t).takeWhile Number.isDigit) = true := by
    intro c t hc
    rw [Number.isNumeral_iff, List.takeWhile_cons, if_pos hc]
    refine ⟨by simp, fun d hd => ?_⟩
    rcases List.mem_cons.mp hd with rfl | hd
    · exact hc
    · exact List.mem_takeWhile_imp hd
  have hds := hnum b s hb
  simp only [number, Spelled]
  generalize (b :: s).dropWhile Number.isDigit = r
  unfold fraction
  split
  · rename_i point d rest
    split
    · rename_i h
      obtain ⟨rfl, hd⟩ := h
      rw [if_neg (by simp)]
      exact Spells.float hds (hnum d rest hd)
    · rw [if_pos rfl, List.append_nil]
      exact Spells.int hds
  · rw [if_pos rfl, List.append_nil]
    exact Spells.int hds

theorem string_spelled (s : Bytes) : (string s).1.Spelled := by
  unfold string
  dsimp only
  split
  · trivial
  · rename_i close rest hd
    have hclose : close = byte '"' := by
      have hn := List.head?_dropWhile_not (· ≠ byte '"') s
      rw [hd] at hn
      simpa using hn
    rw [hclose]
    refine Spells.string fun hq => ?_
    simpa using List.mem_takeWhile_imp hq

theorem symbol_spelled (b : UInt8) (s : Bytes) : (symbol b s).1.Spelled := by
  unfold symbol
  split
  · rename_i he
    exact Spells.symbol (List.mem_of_find?_eq_some he)
  · split <;> trivial

theorem first_spelled (b : UInt8) (s : Bytes) : (first b s).1.Spelled := by
  unfold first
  split
  · trivial
  · split
    · exact string_spelled s
    · split
      · rename_i hd
        exact number_spelled hd
      · split
        · rename_i hl
          have hw : isWordByte b = true := by simp [isWordByte, hl]
          rw [List.takeWhile_cons, if_pos hw]
          exact word_spelled hl (List.all_eq_true.mpr fun c hc => List.mem_takeWhile_imp hc)
        · exact symbol_spelled b s

theorem split_spelled (s : Bytes) : ∀ p ∈ split s, p.Spelled := by
  induction s using split_induct with
  | nil =>
    intro p hp
    cases hp
  | cons b s ih =>
    rw [split_cons]
    exact List.forall_mem_cons.mpr ⟨first_spelled b s, ih⟩

theorem Spells.ne_eof {kind : TokenKind} {lexeme : Bytes} {payload : Option Payload}
    (h : Spells kind lexeme payload) : kind ≠ .eof := by
  have hs : ∀ e ∈ symbols, e.2 ≠ .eof := by decide
  have hk : ∀ e ∈ keywords, e.2 ≠ .eof := by decide
  cases h with
  | symbol h => exact hs _ h
  | keyword h => exact hk _ h
  | _ => simp

/-- What the lexeme and the payload of a name or a literal are like. -/
def Fits : TokenKind → Bytes → Option Payload → Prop
  | .identifier, w, _ => isName w = true
  | .int, ds, _ => Number.isNumeral ds = true
  | .float, w, _ => ∃ ds fs, w = ds ++ byte '.' :: fs ∧ Number.isNumeral ds = true ∧
    Number.isNumeral fs = true
  | .string, _, payload => ∃ inner, byte '"' ∉ inner ∧ payload = some (.text inner)
  | _, _, _ => True

theorem Spells.fits {kind : TokenKind} {lexeme : Bytes} {payload : Option Payload}
    (h : Spells kind lexeme payload) : Fits kind lexeme payload := by
  have hs : ∀ e ∈ symbols, ∀ w p, Fits e.2 w p := by simp [symbols, Fits]
  have hk : ∀ e ∈ keywords, ∀ w p, Fits e.2 w p := by simp [keywords, Fits]
  cases h with
  | name h => exact h
  | int h => exact h
  | float hd hf => exact ⟨_, _, rfl, hd, hf⟩
  | string h => exact ⟨_, h, rfl⟩
  | symbol h => exact hs _ h _ _
  | keyword h => exact hk _ h _ _

end Piece

/-! ## Scanned tokens -/

/-- The token of the line break that ends the given line. -/
def Token.lineBreak (line : Int) : Token := ⟨.newline, [Text.newline], none, line⟩

/-- The tokens of a text before the end token. -/
def bodyTokens (s : Bytes) : List Token := Piece.tokensFrom 1 (Piece.split s)

theorem scan_tokens (s : Bytes) :
    (scan s).tokens = bodyTokens s ++ [.eof (1 + Text.newlines s)] := rfl

theorem bodyTokens_spells {s : Bytes} {t : Token} (h : t ∈ bodyTokens s) :
    Piece.Spells t.kind t.lexeme t.payload :=
  Piece.split_spelled s _ (Piece.mem_of_mem_tokensFrom h)

theorem bodyTokens_text {s : Bytes} {t : Token} (h : t ∈ bodyTokens s) (hk : t.kind = .string) :
    t.text? ≠ none := by
  have hs := bodyTokens_spells h
  rw [hk] at hs
  obtain ⟨inner, -, hp⟩ := hs.fits
  simp [Token.text?, hp]

end ExprLang
