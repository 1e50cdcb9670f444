import ExprLang.Proofs.Chunks
import ExprLang.Proofs.Parsing.Completion
import ExprLang.Proofs.Parsing.Respacing

/-!
# Answering a continuation prompt

The interactive loop asks for another line if the text ends in the middle of something. If that is
its only error, the text can be completed: by a closing quote, or by values and closing tokens. Only
a text that ends inside the header of a loop or a list of parameters cannot, since the line break of
the prompt itself is already wrong there.
-/

namespace ExprLang

open ExprLang.Parser

/-! ## The text of closers -/

namespace Parser

def Closer.piece : Closer → Piece
  | value => .word (bytes "true")
  | parenthesis => .mark .rightParen ")"
  | brace => .mark .rightBrace "\x7d"

def Closer.pieces (cs : List Closer) : List Piece := cs.flatMap fun c => [.space, c.piece]

def Closer.text (cs : List Closer) : Bytes := (Closer.pieces cs).flatMap Piece.text

theorem Closer.stops_text (cs : List Closer) : Piece.stops (Closer.text cs) = true := by
  cases cs with
  | nil => rfl
  | cons c cs => rfl

theorem Closer.cuts_pieces (cs : List Closer) : Piece.Cuts (Closer.pieces cs) [] := by
  induction cs with
  | nil => trivial
  | cons c cs ih =>
    have hstops : Piece.stops ((Closer.pieces cs).flatMap Piece.text ++ []) = true := by
      rw [List.append_nil]
      exact Closer.stops_text cs
    refine ⟨Piece.cut_blank _, ?_, ih⟩
    cases c with
    | value =>
      have hwell : (Literal.bool true).isWellFormed = true := rfl
      exact cut_literal hwell hstops
    | parenthesis => exact cut_mark (by decide) (by decide) _
    | brace => exact cut_mark (by decide) (by decide) _

theorem Closer.split_text (cs : List Closer) : Piece.split (Closer.text cs) = Closer.pieces cs := by
  have h := Piece.split_of_cuts (Closer.cuts_pieces cs)
  rwa [List.append_nil, Piece.split_nil, List.append_nil] at h

theorem Closer.tokens (cs : List Closer) (line : Int) :
    AreClosers cs (Piece.tokensFrom line (Closer.pieces cs)) := by
  induction cs generalizing line with
  | nil => rfl
  | cons c cs ih =>
    have hcons : Closer.pieces (c :: cs) = .space :: c.piece :: Closer.pieces cs := rfl
    have htoken : ∀ n, ∃ t, c.piece.token? n = some t ∧ t.kind = c.kind := by
      intro n
      cases c <;> exact ⟨_, rfl, rfl⟩
    obtain ⟨t, ht, hk⟩ := htoken (line + Text.newlines Piece.space.text)
    have hspace : Piece.space.token? line = none := rfl
    rw [hcons, Piece.tokensFrom_cons, Piece.tokensFrom_cons, ht, hspace]
    simp only [Option.toList, List.nil_append, List.singleton_append, AreClosers, List.map_cons, hk]
    exact congrArg _ (ih _)

theorem Closer.errors (cs : List Closer) (line : Int) :
    Piece.errorsFrom line (Closer.pieces cs) = [] := by
  apply Piece.errorsFrom_eq_nil
  intro p hp n
  obtain ⟨c, -, hc⟩ := List.mem_flatMap.mp hp
  simp only [List.mem_cons, List.not_mem_nil, or_false] at hc
  rcases hc with rfl | rfl
  · rfl
  · cases c <;> rfl

end Parser

/-! ## A closing quote -/

namespace Piece

theorem first_isClosed {b : UInt8} (hb : b ≠ byte '"') (s : Bytes) :
    (first b s).1.isClosed = true := by
  unfold first
  rw [if_neg hb]
  split
  · rfl
  · split
    · rfl
    · split
      · rfl
      · unfold symbol
        split
        · rfl
        · split <;> rfl

/-- A string without an end starts with the only quote that is left. -/
theorem quote_of_unclosed {b : UInt8} {s : Bytes} (h : (first b s).1.isClosed = false) :
    b = byte '"' ∧ byte '"' ∉ s := by
  have hb : b = byte '"' := by
    by_contra hb
    rw [first_isClosed hb s] at h
    cases h
  subst hb
  refine ⟨rfl, fun hmem => ?_⟩
  have hstring : first (byte '"') s = string s := rfl
  rw [hstring, string] at h
  split at h
  · rename_i hd
    rw [List.dropWhile_eq_nil_iff] at hd
    simpa using hd _ hmem
  · cases h

/-- A quote on the next line ends the string and nothing else. -/
theorem split_close {s : Bytes} (h : ∃ p ∈ split s, p.isClosed = false) :
    ∃ lexeme inner, split (s ++ [Text.newline, byte '"']) =
      (split s).filter isClosed ++ [.token .string lexeme (some (.text inner))] := by
  induction s using split_induct with
  | nil =>
    obtain ⟨p, hp, -⟩ := h
    cases hp
  | cons b s ih =>
    rw [split_cons] at h ⊢
    by_cases hclosed : (first b s).1.isClosed = true
    · have hmore : ∃ p ∈ split (first b s).2, p.isClosed = false := by
        obtain ⟨p, hp, hunclosed⟩ := h
        rcases List.mem_cons.mp hp with rfl | hp
        · rw [hclosed] at hunclosed
          cases hunclosed
        · exact ⟨p, hp, hunclosed⟩
      obtain ⟨lexeme, inner, hsplit⟩ := ih hmore
      refine ⟨lexeme, inner, ?_⟩
      rw [List.cons_append, split_cons, first_newline b s _ hclosed, hsplit,
        List.filter_cons_of_pos hclosed, List.cons_append]
    · have hunclosed := Bool.eq_false_iff.mpr hclosed
      obtain ⟨rfl, hquote⟩ := quote_of_unclosed hunclosed
      have hinner : byte '"' ∉ s ++ [Text.newline] := by
        rw [List.mem_append, not_or]
        exact ⟨hquote, by decide⟩
      have hfirst : first (byte '"') (s ++ [Text.newline, byte '"']) =
          (.token .string (byte '"' :: (s ++ [Text.newline]) ++ [byte '"'])
            (some (.text (s ++ [Text.newline]))), []) := by
        obtain ⟨c, t, htext, hfirst⟩ := cut_string hinner []
        obtain ⟨rfl, rfl⟩ := List.cons.inj htext
        simpa using hfirst
      refine ⟨byte '"' :: (s ++ [Text.newline]) ++ [byte '"'], s ++ [Text.newline], ?_⟩
      rw [List.filter_cons_of_neg hclosed, first_unclosed hunclosed, List.cons_append, split_cons,
        hfirst]
      rfl

end Piece

/-! ## A string as another statement -/

namespace Parser

theorem joins_string (left : TokenKind) : TokenKind.joins left .string = false := by
  have hgoes : TokenKind.goesOn .string = false := rfl
  simp [TokenKind.joins, hgoes]

theorem readProgram_string {stop t : Token} {inner : Bytes} (hk : t.kind = .string)
    (ht : t.text? = some inner) :
    (readProgram stop [t]).errors = [] ∧ (readProgram stop [t]).malformed = none := by
  have hs : skipNewlines [t] = [t] := by simp [skipNewlines, hk]
  have hs' : skipSeparators [t] = [t] := by simp [skipSeparators, TokenKind.isSeparator, hk]
  have hprimary : readPrimary t [] = .ok ⟨.literal (.string inner), []⟩ := by
    simp only [readPrimary_string hk, stringLiteral, ht]
  have hread : statement (skipSeparators [t]) = .ok ⟨.literal (.string inner), []⟩ := by
    rw [hs']
    refine readOperand_of_unary ?_ (quiet_of_apart ends_nil.1 _)
    rw [hs, readUnary_primary (by rw [hk]; rfl) hprimary, readCalls_nil]
  rw [readProgram_ok hread, readProgram_nil rfl]
  exact ⟨rfl, rfl⟩

/-- A string may follow any program without errors. -/
theorem readProgram_append_string {stop stop' t : Token} {inner : Bytes} (hstop : stop.kind = .eof)
    (hk : t.kind = .string) (ht : t.text? = some inner) {ts : List Token}
    (herr : (readProgram stop ts).errors = []) (hmal : (readProgram stop ts).malformed = none) :
    (readProgram stop' (ts ++ [t])).errors = [] := by
  have hs : skipNewlines [t] = [t] := by simp [skipNewlines, hk]
  have hseam : Seam (.lineBreak 0 :: [t]) := by
    refine .inr ⟨_, _, rfl, rfl, fun u vs hu => ?_⟩
    rw [hs] at hu
    rw [← (List.cons.inj hu).1, hk]
    decide
  have hbreak : readProgram stop (ts ++ .lineBreak 0 :: [t]) =
      (readProgram stop ts).append (readProgram stop [t]) := by
    refine readProgram_append hstop rfl hseam ts (fun e he => ?_) hmal
    rw [herr] at he
    cases he
  obtain ⟨hstring, hstringmal⟩ : (readProgram stop [t]).errors = [] ∧
      (readProgram stop [t]).malformed = none := readProgram_string hk ht
  have hjoin : ∀ left, ∀ u ∈ (skipNewlines [t]).head?, TokenKind.joins left u.kind = false := by
    intro left u hu
    rw [hs] at hu
    cases hu
    rw [hk]
    exact joins_string left
  have hspace := respaced_delete (n := .lineBreak 0) rfl .newline ts hjoin
  have hboth : (readProgram stop (ts ++ .lineBreak 0 :: [t])).errors = [] := by
    rw [hbreak, Program.append, herr, hstring, List.append_nil]
  have hmalformed : (readProgram stop (ts ++ .lineBreak 0 :: [t])).malformed = none := by
    rw [hbreak]
    exact hstringmal
  have hsame : readProgram stop' (ts ++ [t]) = readProgram stop (ts ++ .lineBreak 0 :: [t]) :=
    readProgram_respaced hspace hboth hmalformed
  rw [hsame]
  exact hboth

end Parser

/-! ## Texts with one error -/

section OneError

variable {s : Bytes} {e : SyntaxError}

/-- The only error of a scan at the end of the text is a string without an end. -/
theorem unclosed_of_scan (hscan : (scan s).errors = [e]) (hend : e.atEnd = true) :
    e.cause = .unterminatedString ∧ ∃ p ∈ Piece.split s, p.isClosed = false := by
  have hmem : e ∈ (scan s).errors := by simp [hscan]
  obtain ⟨⟨n, p⟩, hp, hpe⟩ := List.mem_filterMap.mp hmem
  cases p with
  | unclosed text =>
    cases hpe
    exact ⟨rfl, _, Piece.mem_of_mem_locate hp, rfl⟩
  | stray c text =>
    cases hpe
    cases hend
  | token kind lexeme payload => cases hpe
  | blank b => cases hpe

/-- The error is a string without an end. -/
theorem answered_by_quote (hscan : (scan s).errors = [e]) (hend : e.atEnd = true)
    (hparse : (parse (scan s).tokens).errors = []) :
    check (s ++ Text.newline :: [byte '"']) = [] := by
  have hnostray : ∀ p ∈ Piece.split s, ∀ c text, p ≠ .stray c text := by
    rintro p hp c text rfl
    obtain ⟨n, hmem⟩ := Piece.exists_error_of_stray hp
    rw [hscan, List.mem_singleton] at hmem
    rw [← hmem] at hend
    cases hend
  have hunclosed := (unclosed_of_scan hscan hend).2
  obtain ⟨lexeme, inner, hsplit⟩ := Piece.split_close hunclosed
  rw [check, List.append_eq_nil_iff]
  constructor
  · rw [Piece.scan_eq, hsplit]
    apply Piece.errorsFrom_eq_nil
    intro p hp n
    rcases List.mem_append.mp hp with hp | hp
    · obtain ⟨hp, hclosed⟩ := List.mem_filter.mp hp
      cases p with
      | token kind lexeme payload => rfl
      | blank b => rfl
      | stray c text => exact absurd rfl (hnostray _ hp c text)
      | unclosed text => cases hclosed
    · rw [List.mem_singleton.mp hp]
      rfl
  · have htokens : ∃ line, bodyTokens (s ++ Text.newline :: [byte '"']) =
        bodyTokens s ++ [⟨.string, lexeme, some (.text inner), line⟩] := by
      rw [bodyTokens, hsplit, Piece.tokensFrom_append, tokensFrom_closed]
      exact ⟨_, rfl⟩
    obtain ⟨line, htokens⟩ := htokens
    have hmal := parse_scan_malformed s
    rw [parse_scan] at hparse hmal
    rw [parse_scan, htokens]
    exact readProgram_append_string rfl rfl rfl hparse hmal

/-- Something is due at the end of the text. -/
theorem answered_by_closers (hscan : (scan s).errors = [])
    (hparse : (parse (scan s).tokens).errors = [e]) (hend : e.atEnd = true) :
    ∃ what, e.cause = .unexpectedToken what ∧
      (what.inHeader = true → ∀ c, check (s ++ Text.newline :: c) ≠ []) ∧
      (what.inHeader = false → ∃ c, check (s ++ Text.newline :: c) = []) := by
  rw [parse_scan] at hparse
  obtain ⟨what, hcause, hextends⟩ :=
    program_cutOff (fun t => bodyTokens_ne_eof) hparse hend
  have hclosed : ∀ p ∈ Piece.split s, p.isClosed = true := by
    apply split_isClosed
    rw [hscan]
    simp
  refine ⟨what, hcause, fun hheader c => ?_, fun hheader => ?_⟩
  · rw [check, parse_scan, bodyTokens_append c hclosed]
    intro hnil
    exact hextends.blocked hheader _ _ _ rfl (List.append_eq_nil_iff.mp hnil).2
  · obtain ⟨cs, hcs⟩ := hextends.completes hheader
    refine ⟨Closer.text cs, ?_⟩
    rw [check, parse_scan, bodyTokens_append _ hclosed, errors_append _ hclosed, hscan,
      List.append_eq_nil_iff]
    constructor
    · rw [Piece.scan_eq, Closer.split_text, Closer.errors]
      rfl
    · refine hcs _ _ _ rfl ?_
      rw [bodyTokens, Closer.split_text, AreClosers, List.map_map]
      exact Closer.tokens cs 1

end OneError

/-- A text whose only error is that it ends too early can be completed behind a line break, unless
it ends inside the header of a loop or inside a list of parameters. -/
theorem continuation_answered_iff {s : Bytes} {e : SyntaxError} (h : check s = [e])
    (hincomplete : SyntaxError.incomplete (check s) = true) :
    (∃ c, check (s ++ Text.newline :: c) = []) ↔
      e.cause ≠ .unexpectedToken .variableName ∧ e.cause ≠ .unexpectedToken .assignment ∧
        e.cause ≠ .unexpectedToken .parametersEnd := by
  have hend : e.atEnd = true := by
    rw [h] at hincomplete
    exact hincomplete
  rcases List.append_eq_singleton_iff.mp h with ⟨hscan, hparse⟩ | ⟨hscan, hparse⟩
  · obtain ⟨what, hcause, hblocked, hcompletes⟩ := answered_by_closers hscan hparse hend
    have hheader : what.inHeader = false ↔ e.cause ≠ .unexpectedToken .variableName ∧
        e.cause ≠ .unexpectedToken .assignment ∧ e.cause ≠ .unexpectedToken .parametersEnd := by
      rw [hcause]
      cases what <;> decide
    rw [← hheader]
    constructor
    · rintro ⟨c, hc⟩
      by_contra hother
      exact hblocked (by simpa using hother) c hc
    · exact hcompletes
  · rw [(unclosed_of_scan hscan hend).1]
    constructor
    · intro _
      decide
    · intro _
      exact ⟨_, answered_by_quote hscan hend hparse⟩

/-- A call, a block, a conditional and an operator are all open at the end. -/
theorem continuation_answered_nested :
    let s := bytes "x := f(1, \x7b if a b +"
    let e : SyntaxError := ⟨.unexpectedToken .expression, 1, [], true⟩
    check s = [e] ∧ SyntaxError.incomplete (check s) = true ∧
      ∃ c, check (s ++ Text.newline :: c) = [] := by
  intro s e
  have h : check s = [e] := by decide +kernel
  have hincomplete : SyntaxError.incomplete (check s) = true := by decide +kernel
  exact ⟨h, hincomplete, (continuation_answered_iff h hincomplete).mpr (by decide)⟩

/-- The loop asks for another line behind the text, but no text completes it. -/
def Unanswered (s : Bytes) : Prop :=
  (∃ e, check s = [e]) ∧ SyntaxError.incomplete (check s) = true ∧
    ∀ c, check (s ++ Text.newline :: c) ≠ []

theorem unanswered_of_header {s : Bytes} (what : Expected) (hscan : (scan s).errors = [])
    (hparse : (parse (scan s).tokens).errors = [⟨.unexpectedToken what, 1, [], true⟩])
    (hheader : what.inHeader = true) : Unanswered s := by
  have hcheck : check s = [⟨.unexpectedToken what, 1, [], true⟩] := by
    rw [check, hscan, hparse]
    rfl
  obtain ⟨due, hdue, hblocked, -⟩ := answered_by_closers hscan hparse rfl
  obtain rfl : what = due := by simpa using hdue
  exact ⟨⟨_, hcheck⟩, by rw [hcheck]; rfl, hblocked hheader⟩

/-- Texts that end in the header of a loop or in a list of parameters. -/
theorem header_unanswered :
    Unanswered (bytes "for") ∧ Unanswered (bytes "for x") ∧ Unanswered (bytes "|x y") := by
  refine ⟨?_, ?_, ?_⟩
  · exact unanswered_of_header .variableName (by decide +kernel) (by decide +kernel) rfl
  · exact unanswered_of_header .assignment (by decide +kernel) (by decide +kernel) rfl
  · exact unanswered_of_header .parametersEnd (by decide +kernel) (by decide +kernel) rfl

end ExprLang
