import ExprLang.Proofs.Parsing.Scanned
import ExprLang.Repl

/-!
# Sources, chunk by chunk

A source that does not end in the middle of something can be scanned and parsed apart from the lines
behind it, with or without errors. A source that is wrong for another reason than ending too early
stays wrong whatever is typed after it, so the interactive loop never submits a chunk that more
lines could have repaired.
-/

namespace ExprLang

open ExprLang.Parser

/-! ## Two chunks -/

/-- A text without errors at its end has no string without an end. -/
theorem split_isClosed {s : Bytes} (h : ∀ e ∈ (scan s).errors, e.atEnd = false) :
    ∀ p ∈ Piece.split s, p.isClosed = true := by
  intro p hp
  cases p with
  | unclosed text =>
    obtain ⟨n, hn⟩ := Piece.exists_mem_locate 1 hp
    have he := h ⟨.unterminatedString, n + Text.newlines text, [], true⟩
      (List.mem_filterMap.mpr ⟨_, hn, rfl⟩)
    cases he
  | token kind lexeme payload => rfl
  | blank b => rfl
  | stray c text => rfl

section TwoChunks

variable {a : Bytes} (b : Bytes) (ha : ∀ p ∈ Piece.split a, p.isClosed = true)
include ha

theorem bodyTokens_append : bodyTokens (a ++ Text.newline :: b) =
    bodyTokens a ++ .lineBreak (1 + Text.newlines a) ::
      (bodyTokens b).map (Token.mapLine (· + (1 + Text.newlines a))) := by
  have hbreak : ∀ line ps, Piece.tokensFrom line (.lineBreak :: ps) =
      .lineBreak line :: Piece.tokensFrom (line + 1) ps := fun line ps => rfl
  rw [bodyTokens, Piece.split_append_newline a b ha, Piece.tokensFrom_append, Piece.split_text,
    hbreak, Int.add_comm _ 1, Piece.tokensFrom_shift]
  rfl

theorem errors_append : (scan (a ++ Text.newline :: b)).errors =
    (scan a).errors ++ (scan b).errors.map (SyntaxError.mapLine (· + (1 + Text.newlines a))) := by
  have hbreak : ∀ line ps, Piece.errorsFrom line (.lineBreak :: ps) =
      Piece.errorsFrom (line + 1) ps := fun line ps => rfl
  simp only [Piece.scan_eq]
  rw [Piece.split_append_newline a b ha, Piece.errorsFrom_append, Piece.split_text,
    hbreak, Int.add_comm _ 1, Piece.errorsFrom_shift]

end TwoChunks

theorem eof_append (a b : Bytes) : Token.eof (1 + Text.newlines (a ++ Text.newline :: b)) =
    (Token.eof (1 + Text.newlines b)).mapLine (· + (1 + Text.newlines a)) := by
  have hc : Text.newlines (Text.newline :: b) = 1 + Text.newlines b := by
    simp [Text.newlines, Nat.add_comm]
  simp only [Token.eof, Token.mapLine, Piece.newlines_append, hc]
  congr 1
  omega

theorem seam_of_not_else {b : Bytes} (f : Int → Int) (line : Int)
    (h : ∀ t, (scan b).tokens.find? (fun t => t.kind != .newline) = some t → t.kind ≠ .elseWord) :
    Seam (.lineBreak line :: (bodyTokens b).map (Token.mapLine f)) := by
  refine Or.inr ⟨_, _, rfl, rfl, ?_⟩
  intro u vs hu
  rw [skipNewlines_map] at hu
  obtain ⟨t, us, hs, rfl, -⟩ := List.map_eq_cons_iff.mp hu
  rw [mapLine_kind]
  refine h t ?_
  have hd : skipNewlines (scan b).tokens = t :: (us ++ [.eof (1 + Text.newlines b)]) := by
    rw [scan_tokens, skipNewlines, List.dropWhile_append, ← skipNewlines, hs]
    rfl
  have hf := List.find?_not_eq_head?_dropWhile (p := fun t : Token => t.kind == .newline)
    (l := (scan b).tokens)
  rw [← skipNewlines, hd] at hf
  exact hf

/-- The statements and errors of a chunk, and then those of the lines behind it. -/
theorem parse_append {a b : Bytes} (ha : ∀ e ∈ check a, e.atEnd = false)
    (hseam : Seam (.lineBreak (1 + Text.newlines a) ::
      (bodyTokens b).map (Token.mapLine (· + (1 + Text.newlines a))))) :
    parse (scan (a ++ Text.newline :: b)).tokens =
      (parse (scan a).tokens).append
        ((parse (scan b).tokens).mapLine (· + (1 + Text.newlines a))) := by
  have hclosed : ∀ p ∈ Piece.split a, p.isClosed = true :=
    split_isClosed fun e he => ha e (List.mem_append_left _ he)
  have hmal := parse_scan_malformed a
  have herr : ∀ e ∈ (parse (scan a).tokens).errors, e.atEnd = false :=
    fun e he => ha e (List.mem_append_right _ he)
  rw [parse_scan] at hmal herr
  rw [parse_scan, parse_scan, parse_scan, bodyTokens_append b hclosed, eof_append,
    readProgram_append rfl rfl hseam _ herr hmal, readProgram_map]

/-- A chunk that does not break off and the chunk on the lines behind it are scanned and parsed
independently, whether or not they have errors. -/
theorem chunks_independent (a b : Bytes) (ha : ∀ e ∈ check a, e.atEnd = false)
    (hb : ∀ t, (scan b).tokens.find? (fun t => t.kind != .newline) = some t →
      t.kind ≠ .elseWord) :
    let k : Int := 1 + Text.newlines a
    let both := scan (a ++ Text.newline :: b)
    both.tokens = (scan a).tokens.dropLast ++ .lineBreak k ::
        (scan b).tokens.map (Token.mapLine (· + k)) ∧
      both.errors = (scan a).errors ++ (scan b).errors.map (SyntaxError.mapLine (· + k)) ∧
      (parse both.tokens).statements = (parse (scan a).tokens).statements ++
        (parse (scan b).tokens).statements.map (Expr.mapLine (· + k)) ∧
      (parse both.tokens).errors = (parse (scan a).tokens).errors ++
        (parse (scan b).tokens).errors.map (SyntaxError.mapLine (· + k)) := by
  intro k both
  have hclosed : ∀ p ∈ Piece.split a, p.isClosed = true :=
    split_isClosed fun e he => ha e (List.mem_append_left _ he)
  have hparse : parse both.tokens =
      (parse (scan a).tokens).append ((parse (scan b).tokens).mapLine (· + k)) :=
    parse_append ha (seam_of_not_else _ _ hb)
  refine ⟨?_, errors_append b hclosed, ?_, ?_⟩
  · simp only [both, scan_tokens, bodyTokens_append b hclosed, eof_append, List.map_append,
      List.map_cons, List.map_nil, List.dropLast_concat, List.append_assoc, List.cons_append]
    rfl
  · rw [hparse]
    rfl
  · rw [hparse]
    rfl

/-- The first chunk has an unexpected token, a stray character and a number that is too large. -/
theorem chunks_independent_broken :
    let a := bytes "x := )\n# 99999999999999999999"
    let b := bytes "\nif y 1\nelse (2"
    (check a).length = 3 ∧ (∀ e ∈ check a, e.atEnd = false) ∧
      (parse (scan (a ++ Text.newline :: b)).tokens).errors =
        (parse (scan a).tokens).errors ++
          (parse (scan b).tokens).errors.map (SyntaxError.mapLine (· + (1 + Text.newlines a))) :=
  ⟨by decide +kernel, by decide +kernel,
    (chunks_independent _ _ (by decide +kernel) (by decide +kernel)).2.2.2⟩

/-! ## Errors that stay -/

/-- A string without an end comes last, so the tokens before it are where they were. -/
theorem tokensFrom_closed (line : Int) (s : Bytes) :
    Piece.tokensFrom line ((Piece.split s).filter Piece.isClosed) =
      Piece.tokensFrom line (Piece.split s) := by
  induction s using Piece.split_induct generalizing line with
  | nil => rfl
  | cons b s ih =>
    have hcons : ∀ (p : Piece) (ps qs : List Piece),
        (∀ n, Piece.tokensFrom n ps = Piece.tokensFrom n qs) →
        Piece.tokensFrom line (p :: ps) = Piece.tokensFrom line (p :: qs) := by
      intro p ps qs h
      rw [Piece.tokensFrom_cons, Piece.tokensFrom_cons, h]
    rw [Piece.split_cons]
    by_cases h : (Piece.first b s).1.isClosed = true
    · rw [List.filter_cons_of_pos h]
      exact hcons _ _ _ ih
    · rw [List.filter_cons_of_neg h, Piece.first_unclosed (Bool.eq_false_iff.mpr h)]
      cases hp : (Piece.first b s).1 with
      | unclosed text => rfl
      | token kind lexeme payload => simp [hp, Piece.isClosed] at h
      | blank b => simp [hp, Piece.isClosed] at h
      | stray c text => simp [hp, Piece.isClosed] at h

theorem bodyTokens_append_suffix (s c : Bytes) :
    ∃ ts, bodyTokens (s ++ Text.newline :: c) = bodyTokens s ++ ts := by
  obtain ⟨ps, hps⟩ := Piece.split_append_closed s c
  refine ⟨Piece.tokensFrom
    (1 + Text.newlines (((Piece.split s).filter Piece.isClosed).flatMap Piece.text)) ps, ?_⟩
  rw [bodyTokens, hps, Piece.tokensFrom_append, tokensFrom_closed]
  rfl

/-- Stray characters stay, and all other errors of a scan are at the end. -/
theorem stray_persists {s : Bytes} (c : Bytes) {e : SyntaxError} (he : e ∈ (scan s).errors)
    (hend : e.atEnd = false) : (scan (s ++ Text.newline :: c)).errors ≠ [] := by
  obtain ⟨ps, hps⟩ := Piece.split_append_closed s c
  obtain ⟨⟨n, p⟩, hp, hpe⟩ := List.mem_filterMap.mp he
  have hmem := Piece.mem_of_mem_locate hp
  cases p with
  | stray ch text =>
    have hin : Piece.stray ch text ∈ Piece.split (s ++ Text.newline :: c) := by
      rw [hps]
      exact List.mem_append_left _ (List.mem_filter.mpr ⟨hmem, rfl⟩)
    obtain ⟨m, hm⟩ := Piece.exists_mem_locate 1 hin
    exact List.ne_nil_of_mem (List.mem_filterMap.mpr ⟨_, hm, rfl⟩)
  | unclosed text =>
    cases hpe
    cases hend
  | token kind lexeme payload => cases hpe
  | blank b => cases hpe

/-- A source that is wrong, and not only incomplete, stays wrong with more lines behind it. -/
theorem check_persists {s : Bytes} (c : Bytes) (hne : check s ≠ [])
    (hend : SyntaxError.incomplete (check s) = false) :
    check (s ++ Text.newline :: c) ≠ [] := by
  have hlast : (check s).getLast? = some ((check s).getLast hne) :=
    List.getLast?_eq_some_getLast hne
  rw [SyntaxError.incomplete, hlast] at hend
  simp only at hend
  intro hnil
  obtain ⟨hscan, hparse⟩ := List.append_eq_nil_iff.mp hnil
  by_cases hp : (parse (scan s).tokens).errors = []
  · have hc : check s = (scan s).errors := by simp only [check, hp, List.append_nil]
    have hm : (check s).getLast hne ∈ (scan s).errors := by
      rw [← hc]
      exact List.getLast_mem hne
    exact stray_persists c hm hend hscan
  · have hl : (parse (scan s).tokens).errors.getLast? = some ((check s).getLast hne) := by
      rw [← hlast, check, List.getLast?_append, List.getLast?_eq_some_getLast hp]
      rfl
    obtain ⟨ts, hts⟩ := bodyTokens_append_suffix s c
    rw [parse_scan] at hl hparse
    rw [hts] at hparse
    exact readProgram_errors_persist rfl ts _ hl hend hparse

namespace Repl

/-- The loop gives up collecting only if the text is not merely cut short. -/
theorem incomplete_of_mem_chunks {p : Pending} {inputs : List Input} {source : Bytes}
    (h : source ∈ chunks p inputs) : SyntaxError.incomplete (check source) = false := by
  induction inputs generalizing p with
  | nil => cases h
  | cons i inputs ih =>
    simp only [chunks] at h
    cases i with
    | line text =>
      simp only [Pending.read] at h
      by_cases hi : SyntaxError.incomplete (check (p.add text)) = true
      · rw [if_pos hi] at h
        exact ih h
      · rw [if_neg hi] at h
        rcases List.mem_cons.mp h with rfl | h
        · exact Bool.eq_false_iff.mpr hi
        · exact ih h
    | interrupt => exact ih h
    | stop => cases h

theorem foldl_add {p : Pending} (hp : p ≠ []) (line : Bytes) (lines : List Bytes) :
    ∃ c, (line :: lines).foldl Pending.add p = p ++ Text.newline :: c := by
  induction lines generalizing p line with
  | nil => exact ⟨line, by simp [Pending.add, hp]⟩
  | cons next lines ih =>
    have hadd : p.add line = p ++ Text.newline :: line := by simp [Pending.add, hp]
    obtain ⟨c, hc⟩ := ih (p := p.add line) (by simp [hadd]) next
    refine ⟨line ++ Text.newline :: c, ?_⟩
    rw [List.foldl_cons, hc, hadd, List.append_assoc, List.cons_append]

end Repl

/-- Giving up is final: a source that is wrong and not incomplete stays wrong whatever follows, and
no lines after a wrong chunk of the interactive loop could have made it right. -/
theorem giving_up_is_final :
    (∀ s c : Bytes, check s ≠ [] → SyntaxError.incomplete (check s) = false →
      check (s ++ Text.newline :: c) ≠ []) ∧
    ∀ (p : Repl.Pending) (inputs : List Repl.Input) (source : Bytes) (lines : List Bytes),
      source ∈ Repl.chunks p inputs → check source ≠ [] →
      check (lines.foldl Repl.Pending.add source) ≠ [] := by
  refine ⟨fun s c => check_persists c, ?_⟩
  intro p inputs source lines hmem hne
  cases lines with
  | nil => exact hne
  | cons line lines =>
    have hs : source ≠ [] := by
      rintro rfl
      exact hne rfl
    obtain ⟨c, hc⟩ := Repl.foldl_add hs line lines
    rw [hc]
    exact check_persists c hne (Repl.incomplete_of_mem_chunks hmem)

/-- A string that is never closed does not hide the error before it, and the loop gives up. -/
theorem giving_up_is_final_bracket :
    let s := bytes "f(1 2) + \"abc"
    check s ≠ [] ∧ SyntaxError.incomplete (check s) = false ∧
      check (s ++ Text.newline :: bytes "\"") ≠ [] ∧
      check ([bytes "\"", bytes "3)"].foldl Repl.Pending.add s) ≠ [] :=
  ⟨by decide +kernel, by decide +kernel,
    giving_up_is_final.1 _ _ (by decide +kernel) (by decide +kernel),
    giving_up_is_final.2 [] [.line (bytes "f(1 2) + \"abc")] _ _ (by decide +kernel)
      (by decide +kernel)⟩

end ExprLang
