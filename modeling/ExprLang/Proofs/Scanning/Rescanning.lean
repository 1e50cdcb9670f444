import ExprLang.Proofs.Printing.Pieces
import ExprLang.Proofs.Scanning.LongestMatch

/-!
# Scanning lexemes again

The lexemes of a text with a blank between any two of them are scanned to the same tokens on the
same lines: a blank ends every token, and what stood between the tokens had no line breaks.
-/

namespace ExprLang

namespace Piece

/-! ## Line breaks are tokens -/

/-- What starts with a line break starts with a token. -/
theorem Stray.ne_newline {b : UInt8} {s : Bytes} (h : Stray (b :: s)) : b ≠ Text.newline := by
  rintro rfl
  refine h.1 .newline [Text.newline] none (.symbol (by decide)) ?_
  exact ⟨s, rfl⟩

theorem Stray.newlines_encode {c : Char} {s : Bytes} (h : Stray (Text.Utf8.encode c ++ s)) :
    Text.newlines (Text.Utf8.encode c) = 0 := by
  obtain ⟨b, rest, he, -, hrest⟩ := Text.Utf8.encode_eq_cons c
  rw [he] at h ⊢
  refine List.count_eq_zero.mpr fun hmem => ?_
  rcases List.mem_cons.mp hmem with hb | hb
  · exact h.ne_newline hb.symm
  · exact hrest _ hb rfl

theorem newlines_singleton {b : UInt8} (h : b ≠ Text.newline) : Text.newlines [b] = 0 :=
  List.count_eq_zero.mpr fun hmem => h (List.mem_singleton.mp hmem).symm

/-- A piece without line breaks that is no token does not matter for the tokens. -/
theorem tokensFrom_skip {p : Piece} (hp : p.isToken = false) (hn : Text.newlines p.text = 0)
    (line : Int) (ps : List Piece) : tokensFrom line (p :: ps) = tokensFrom line ps := by
  have hnone : p.token? line = none := by
    cases p with
    | token kind lexeme payload => cases hp
    | _ => rfl
  rw [tokensFrom_cons, hnone, hn]
  simp

/-- Only the tokens among the pieces of a text matter for their lines. -/
theorem Cutting.tokensFrom_filter {s : Bytes} {ps : List Piece} (h : Cutting s ps) (line : Int) :
    tokensFrom line (ps.filter isToken) = tokensFrom line ps := by
  induction h generalizing line with
  | nil => rfl
  | token _ _ _ ih =>
    rw [List.filter_cons_of_pos rfl, tokensFrom_cons, tokensFrom_cons, ih]
  | @blank b _ _ hb _ ih =>
    have hn : b ≠ Text.newline := by
      rcases hb with rfl | rfl | rfl <;> decide
    rw [List.filter_cons_of_neg (by simp [isToken]), ih]
    exact (tokensFrom_skip (p := .blank b) rfl (newlines_singleton hn) line _).symm
  | @character c _ _ hstray _ ih =>
    rw [List.filter_cons_of_neg (by simp [isToken]), ih]
    exact (tokensFrom_skip (p := .stray c _) rfl hstray.newlines_encode line _).symm
  | @malformed b _ _ hstray _ _ ih =>
    rw [List.filter_cons_of_neg (by simp [isToken]), ih]
    have hn := newlines_singleton hstray.ne_newline
    exact (tokensFrom_skip (p := .stray _ [b]) rfl hn line _).symm
  | unclosed _ => rfl

end Piece

/-- Texts with the same token pieces have the same tokens on the same lines. -/
theorem bodyTokens_congr {s t : Bytes}
    (h : (Piece.split s).filter Piece.isToken = (Piece.split t).filter Piece.isToken) :
    bodyTokens s = bodyTokens t := by
  have hs := (Piece.cutting_iff.mpr rfl : Piece.Cutting s _).tokensFrom_filter 1
  have ht := (Piece.cutting_iff.mpr rfl : Piece.Cutting t _).tokensFrom_filter 1
  rw [bodyTokens, bodyTokens, ← hs, ← ht, h]

/-! ## Lexemes between blanks -/

/-- Tokens with a blank between any two of them, as pieces. -/
def spacedPieces (ts : List Token) : List Piece :=
  [Piece.space].intercalate (ts.map fun t => [t.piece])

theorem spacedPieces_text (ts : List Token) :
    (spacedPieces ts).flatMap Piece.text = (bytes " ").intercalate (ts.map Token.lexeme) := by
  rw [spacedPieces, Expr.flatMap_intercalate, List.map_map]
  refine congrArg (List.intercalate _) (List.map_congr_left fun t _ => ?_)
  exact List.append_nil t.lexeme

theorem spacedPieces_filter (ts : List Token) :
    (spacedPieces ts).filter Piece.isToken = ts.map Token.piece := by
  induction ts with
  | nil => rfl
  | cons t ts ih =>
    cases ts with
    | nil => rfl
    | cons u ts =>
      have hcons : spacedPieces (t :: u :: ts) =
          t.piece :: Piece.space :: spacedPieces (u :: ts) := by
        simp [spacedPieces, List.intercalate_cons_cons]
      have hspace : ¬ Piece.space.isToken = true := by decide
      rw [hcons, List.filter_cons_of_pos rfl, List.filter_cons_of_neg hspace, ih]
      rfl

theorem faultless_spacedPieces (ts : List Token) : Faultless (spacedPieces ts) := by
  refine faultless_intercalate (by rfl) fun ps hps => ?_
  obtain ⟨t, -, rfl⟩ := List.mem_map.mp hps
  rfl

/-- The scanner finds such tokens again if their lexemes are those of their kinds. -/
theorem split_spacedPieces {ts : List Token}
    (h : ∀ t ∈ ts, Piece.Spells t.kind t.lexeme t.payload) :
    Piece.split ((bytes " ").intercalate (ts.map Token.lexeme)) = spacedPieces ts := by
  have hspace : ∀ rest, Piece.Cuts [Piece.space] rest := fun rest =>
    ⟨Piece.cut_blank rest, trivial⟩
  have hcuts : Piece.Cuts (spacedPieces ts) [] := by
    refine cuts_intercalate hspace (fun rest => rfl) (fun ps hps => ?_) [] rfl
    obtain ⟨t, ht, rfl⟩ := List.mem_map.mp hps
    intro rest hstop
    exact ⟨Piece.cut_of_stops (h t ht) hstop, trivial⟩
  have hsplit := Piece.split_of_cuts hcuts
  rwa [spacedPieces_text, List.append_nil, Piece.split_nil, List.append_nil] at hsplit

/-- The lexemes of a scan, joined by blanks, are scanned without an error to the same tokens on the
same lines, whether or not the first scan had errors. Only the end token may have moved. -/
theorem rescan_lexemes (s : Bytes) :
    let kept := (scan s).tokens.filter fun t => t.kind != .eof
    let joined := (bytes " ").intercalate (kept.map Token.lexeme)
    (scan joined).errors = [] ∧
      (scan joined).tokens = kept ++ [.eof (1 + Text.newlines joined)] := by
  intro kept joined
  have hkept : kept = bodyTokens s := by
    have hbody : (bodyTokens s).filter (fun t => t.kind != .eof) = bodyTokens s :=
      List.filter_eq_self.mpr fun t ht => bne_iff_ne.mpr (bodyTokens_spells ht).ne_eof
    show (scan s).tokens.filter _ = _
    rw [scan_tokens, List.filter_append, hbody]
    exact List.append_nil _
  have hsplit : Piece.split joined = spacedPieces (bodyTokens s) := by
    show Piece.split ((bytes " ").intercalate (kept.map Token.lexeme)) = _
    rw [hkept]
    exact split_spacedPieces fun t => bodyTokens_spells
  have hbody : bodyTokens joined = bodyTokens s := by
    refine bodyTokens_congr ?_
    rw [hsplit, spacedPieces_filter, bodyTokens, Piece.tokensFrom_piece]
  constructor
  · rw [Piece.scan_eq, hsplit]
    exact errorsFrom_faultless (faultless_spacedPieces _) 1
  · rw [scan_tokens, hbody, hkept]

/-- What was dropped between `:` and `=` leaves a blank. -/
example :
    let s := bytes "1.2:#=\"a\n#\"\nx\""
    let joined := bytes "1.2 : = \"a\n#\" \n x"
    (scan s).errors.length = 2 ∧ (scan joined).errors = [] ∧
      (scan joined).tokens.dropLast = (scan s).tokens.dropLast := by
  decide

end ExprLang
