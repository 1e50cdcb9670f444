import ExprLang.Proofs.Scanning.LongestMatch

/-!
# Lines of tokens and errors

A token has the line of its end, which is one more than the number of line breaks up to there; a
line break has the line it ends. A stray character is reported in the line it stands in, a string
without an end in the last line, and the end token is in the last line too. So the lines of the
tokens never go down.
-/

namespace ExprLang

/-- The line of the place behind the first `offset` bytes of a text. -/
def Text.lineAt (s : Bytes) (offset : Nat) : Int := 1 + newlines (s.take offset)

theorem Text.lineAt_append (s t : Bytes) : lineAt (s ++ t) s.length = 1 + newlines s := by
  rw [lineAt, List.take_left]

theorem Text.lineAt_length (s : Bytes) : lineAt s s.length = 1 + newlines s := by
  rw [lineAt, List.take_length]

namespace Piece

/-! ## Places -/

/-- Pieces with the offsets they start at, the first one at `start`. -/
def place (start : Nat) : List Piece → List (Nat × Piece)
  | [] => []
  | p :: ps => (start, p) :: place (start + p.text.length) ps

/-- The token a piece of `s` is, if it starts at the given offset. -/
def tokenIn? (s : Bytes) (start : Nat) : Piece → Option Token
  | .token kind lexeme payload =>
    some ⟨kind, lexeme, payload,
      Text.lineAt s (if kind = .newline then start else start + lexeme.length)⟩
  | _ => none

/-- The error a piece of `s` is, if it starts at the given offset. -/
def errorIn? (s : Bytes) (start : Nat) : Piece → Option SyntaxError
  | .stray c text => some ⟨.unexpectedCharacter c, Text.lineAt s start, text, false⟩
  | .unclosed _ => some ⟨.unterminatedString, Text.lineAt s s.length, [], true⟩
  | _ => none

/-- A piece stands in the text at its offset. -/
theorem exists_of_mem_place (before : Bytes) {ps : List Piece} {q : Nat × Piece}
    (h : q ∈ place before.length ps) :
    ∃ a b, before ++ ps.flatMap text = a ++ q.2.text ++ b ∧ a.length = q.1 := by
  induction ps generalizing before with
  | nil => cases h
  | cons p ps ih =>
    rcases List.mem_cons.mp h with rfl | h
    · exact ⟨before, ps.flatMap text, by simp, rfl⟩
    · rw [← List.length_append] at h
      obtain ⟨a, b, hab, ha⟩ := ih _ h
      exact ⟨a, b, by rw [← hab]; simp, ha⟩

/-- A piece starts on the line of its offset. -/
theorem locate_place (before : Bytes) (ps : List Piece) :
    locate (1 + Text.newlines before) ps = (place before.length ps).map fun q =>
      (Text.lineAt (before ++ ps.flatMap text) q.1, q.2) := by
  induction ps generalizing before with
  | nil => rfl
  | cons p ps ih =>
    have hnext := ih (before ++ p.text)
    rw [newlines_append, List.length_append, List.append_assoc, ← List.flatMap_cons] at hnext
    rw [locate, place, List.map_cons, Text.lineAt_append]
    refine congrArg₂ List.cons rfl ?_
    rw [← hnext]
    congr 1
    omega

/-- The line breaks between the start and the end of a piece are its own. -/
theorem lineAt_end {s a b : Bytes} {p : Piece} (h : s = a ++ p.text ++ b) :
    Text.lineAt s (a.length + p.text.length) = Text.lineAt s a.length + Text.newlines p.text := by
  have hstart : Text.lineAt s a.length = 1 + Text.newlines a := by
    rw [h, List.append_assoc, Text.lineAt_append]
  rw [hstart, h, ← List.length_append, Text.lineAt_append, newlines_append]
  omega

theorem token?_eq_tokenIn? {s a b : Bytes} {p : Piece} (h : s = a ++ p.text ++ b) :
    p.token? (Text.lineAt s a.length) = p.tokenIn? s a.length := by
  cases p with
  | token kind lexeme payload =>
    have hend := lineAt_end h
    simp only [text] at hend
    simp only [token?, tokenIn?]
    split
    · rfl
    · rw [hend]
  | blank b => rfl
  | stray c t => rfl
  | unclosed t => rfl

theorem error?_eq_errorIn? {s a b : Bytes} {p : Piece} (h : s = a ++ p.text ++ b)
    (hlast : p.isClosed = false → b = []) :
    p.error? (Text.lineAt s a.length) = p.errorIn? s a.length := by
  cases p with
  | unclosed t =>
    obtain rfl := hlast rfl
    have hend := lineAt_end h
    have hlength : s.length = a.length + t.length := by
      rw [h, List.append_nil, List.length_append]
      rfl
    simp only [text] at hend
    simp only [error?, errorIn?]
    rw [hlength, hend]
  | token kind lexeme payload => rfl
  | blank b => rfl
  | stray c t => rfl

/-- A string without an end comes last. -/
theorem end_of_unclosed {s : Bytes} {start : Nat} {q : Nat × Piece}
    (h : q ∈ place start (split s)) (hq : q.2.isClosed = false) :
    q.1 + q.2.text.length = start + s.length := by
  induction s using split_induct generalizing start with
  | nil => cases h
  | cons b s ih =>
    have htext := congrArg List.length (first_text b s)
    rw [List.length_append] at htext
    rw [split_cons] at h
    rcases List.mem_cons.mp h with rfl | h
    · rw [first_unclosed hq, List.length_nil] at htext
      simp only
      omega
    · have hend := ih h
      omega

/-! ## Lines do not go down -/

theorem token?_line {line : Int} {p : Piece} {t : Token} (h : p.token? line = some t) :
    line ≤ t.line ∧ t.line ≤ line + Text.newlines p.text := by
  cases p with
  | token kind lexeme payload =>
    cases h
    simp only [text]
    split <;> omega
  | blank b => cases h
  | stray c s => cases h
  | unclosed s => cases h

theorem line_of_mem_tokensFrom {line : Int} {t : Token} {ps : List Piece}
    (h : t ∈ tokensFrom line ps) :
    line ≤ t.line ∧ t.line ≤ line + Text.newlines (ps.flatMap text) := by
  induction ps generalizing line with
  | nil => cases h
  | cons p ps ih =>
    rw [tokensFrom_cons, List.mem_append, Option.mem_toList] at h
    rw [List.flatMap_cons, newlines_append]
    rcases h with h | h
    · have hp := token?_line h
      omega
    · have hps := ih h
      omega

theorem tokensFrom_sorted (line : Int) (ps : List Piece) :
    (tokensFrom line ps).Pairwise fun t u => t.line ≤ u.line := by
  induction ps generalizing line with
  | nil => exact .nil
  | cons p ps ih =>
    rw [tokensFrom_cons, List.pairwise_append]
    refine ⟨?_, ih _, ?_⟩
    · cases p.token? line with
      | none => exact .nil
      | some t => exact List.pairwise_singleton _ t
    · intro t ht u hu
      have hp := token?_line (Option.mem_toList.mp ht)
      have hps := line_of_mem_tokensFrom hu
      omega

end Piece

theorem line_of_mem_scan {s : Bytes} {t : Token} (h : t ∈ (scan s).tokens) :
    1 ≤ t.line ∧ t.line ≤ 1 + Text.newlines s := by
  rw [scan_tokens, List.mem_append, List.mem_singleton] at h
  rcases h with h | rfl
  · have hl := Piece.line_of_mem_tokensFrom h
    rwa [Piece.split_text] at hl
  · simp only [Token.eof]
    omega

theorem scan_sorted (s : Bytes) : (scan s).tokens.Pairwise fun t u => t.line ≤ u.line := by
  rw [scan_tokens, List.pairwise_append]
  refine ⟨Piece.tokensFrom_sorted 1 _, List.pairwise_singleton _ _, ?_⟩
  intro t ht u hu
  have hline := Piece.line_of_mem_tokensFrom ht
  rw [Piece.split_text] at hline
  rw [List.mem_singleton.mp hu]
  exact hline.2

/-! ## The lines of a scan -/

section Scan

open Piece

theorem exists_of_mem_place_split {s : Bytes} {q : Nat × Piece} (h : q ∈ place 0 (split s)) :
    ∃ a b, s = a ++ q.2.text ++ b ∧ a.length = q.1 := by
  have hplace := exists_of_mem_place [] h
  rwa [List.nil_append, split_text] at hplace

theorem locate_split (s : Bytes) :
    locate 1 (split s) = (place 0 (split s)).map fun q => (Text.lineAt s q.1, q.2) := by
  have h := locate_place [] (split s)
  rwa [List.nil_append, split_text] at h

theorem bodyTokens_place (s : Bytes) :
    bodyTokens s = (place 0 (split s)).filterMap fun q => q.2.tokenIn? s q.1 := by
  rw [bodyTokens, tokensFrom, locate_split, List.filterMap_map]
  refine List.filterMap_congr fun q hq => ?_
  obtain ⟨a, b, hs, ha⟩ := exists_of_mem_place_split hq
  show q.2.token? (Text.lineAt s q.1) = q.2.tokenIn? s q.1
  rw [← ha]
  exact token?_eq_tokenIn? hs

theorem errors_place (s : Bytes) :
    (scan s).errors = (place 0 (split s)).filterMap fun q => q.2.errorIn? s q.1 := by
  rw [scan_eq, errorsFrom, locate_split, List.filterMap_map]
  refine List.filterMap_congr fun q hq => ?_
  obtain ⟨a, b, hs, ha⟩ := exists_of_mem_place_split hq
  show q.2.error? (Text.lineAt s q.1) = q.2.errorIn? s q.1
  rw [← ha]
  refine error?_eq_errorIn? hs fun hclosed => ?_
  have hend := end_of_unclosed hq hclosed
  have hlength := congrArg List.length hs
  simp only [List.length_append] at hlength
  exact List.eq_nil_of_length_eq_zero (by omega)

/-- The one way to cut a text into longest pieces tells all lines of its scan: a token has the line
of the place where it ends, a line break that of the place where it starts, a stray character that
of its place, and an unclosed string and the end token have the line of the end of the text. The
lines of the tokens never go down. -/
theorem scan_lines (s : Bytes) :
    ∃ ps, Cutting s ps ∧ (∀ qs, Cutting s qs → qs = ps) ∧
      (∀ q ∈ place 0 ps, ∃ a b, s = a ++ q.2.text ++ b ∧ a.length = q.1) ∧
      (scan s).tokens = (place 0 ps).filterMap (fun q => q.2.tokenIn? s q.1) ++
        [.eof (Text.lineAt s s.length)] ∧
      (scan s).errors = (place 0 ps).filterMap (fun q => q.2.errorIn? s q.1) ∧
      (scan s).tokens.Pairwise fun t u => t.line ≤ u.line := by
  refine ⟨split s, cutting_iff.mpr rfl, fun qs => cutting_iff.mp,
    fun q => exists_of_mem_place_split, ?_, errors_place s, scan_sorted s⟩
  rw [scan_tokens, bodyTokens_place, Text.lineAt_length]

end Scan

/-- A string that contains a line break is on the line it ends on. -/
example : (scan (bytes "\"a\nb\"\n# \"c\n")).tokens.map Token.line = [2, 2, 4] ∧
    (scan (bytes "\"a\nb\"\n# \"c\n")).errors.map SyntaxError.line = [3, 4] := by
  decide

end ExprLang
