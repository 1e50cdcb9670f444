import ExprLang.Proofs.Parsing.Joints
import ExprLang.Proofs.Parsing.Strings
import ExprLang.Proofs.Repl.Chunking
import ExprLang.Proofs.Running.Chunks
import ExprLang.Proofs.Scanning.Flattening

/-!
# Programs on one line

The interactive loop remembers a program with blanks for its line breaks. That text is the same
program exactly if no string of it contains a line break and no line break keeps two tokens apart
that would join without it.
-/

namespace ExprLang

open ExprLang.Parser

/-! ## The tokens of the entry -/

def Token.flat (t : Token) : Token :=
  { t with lexeme := Text.flat t.lexeme, payload := t.payload.map Payload.flat }

/-- The lines of the tokens left open, the entry has the tokens of the text but its line breaks. -/
theorem bareTokens_flatten (ps : List Piece) :
    bareTokens (ps.map Piece.flatten) = (withoutBreaks (bareTokens ps)).map Token.flat := by
  induction ps with
  | nil => rfl
  | cons p ps ih =>
    have hcons : ∀ q qs, bareTokens (q :: qs) = (Piece.bareToken? q).toList ++ bareTokens qs := by
      intro q qs
      rw [bareTokens, List.filterMap_cons]
      cases Piece.bareToken? q <;> rfl
    rw [List.map_cons, hcons, hcons, ih]
    cases p with
    | token kind lexeme payload =>
      by_cases hk : kind = .newline
      · subst hk
        rfl
      · rw [Piece.flatten_token hk]
        simp only [Piece.bareToken?, Option.toList, List.singleton_append]
        rw [withoutBreaks_cons (by exact hk)]
        rfl
    | blank b => rfl
    | stray c text => rfl
    | unclosed text => rfl

section Clean

variable {s : Bytes} (hscan : (scan s).errors = [])
include hscan

theorem not_stray_of_scan : ∀ p ∈ Piece.split s, ∀ c text, p ≠ .stray c text := by
  rintro p hp c text rfl
  obtain ⟨n, hmem⟩ := Piece.exists_error_of_stray hp
  rw [hscan] at hmem
  cases hmem

theorem split_entry : Piece.split (Repl.entry s) = (Piece.split s).map Piece.flatten :=
  Piece.split_flat (not_stray_of_scan hscan)

theorem scan_entry : (scan (Repl.entry s)).errors = [] := by
  have hclosed : ∀ p ∈ Piece.split s, p.isClosed = true := split_isClosed (by simp [hscan])
  rw [Piece.scan_eq, split_entry hscan]
  apply Piece.errorsFrom_eq_nil
  intro q hq n
  obtain ⟨p, hp, rfl⟩ := List.mem_map.mp hq
  cases p with
  | token kind lexeme payload => cases kind <;> rfl
  | blank b => rfl
  | stray c text => exact absurd rfl (not_stray_of_scan hscan _ hp c text)
  | unclosed text => cases hclosed _ hp

theorem bodyTokens_entry : (bodyTokens (Repl.entry s)).map (Token.mapLine fun _ => 0) =
    ((withoutBreaks (bodyTokens s)).map (Token.mapLine fun _ => 0)).map Token.flat := by
  have hfilter : withoutBreaks ((bodyTokens s).map (Token.mapLine fun _ => 0)) =
      (withoutBreaks (bodyTokens s)).map (Token.mapLine fun _ => 0) := List.filter_map
  rw [← hfilter, bodyTokens, bodyTokens, bareTokens_tokensFrom, bareTokens_tokensFrom,
    split_entry hscan, bareTokens_flatten]

end Clean

/-! ## Tokens without line breaks -/

theorem Piece.Spells.flat {kind : TokenKind} {lexeme : Bytes} {payload : Option Payload}
    (h : Spells kind lexeme payload) (hkind : kind ≠ .newline)
    (hstring : kind = .string → Text.newline ∉ lexeme) :
    Text.flat lexeme = lexeme ∧ payload.map Payload.flat = payload := by
  have hsymbols : ∀ e ∈ symbols, e.2 ≠ .newline → Text.newline ∉ e.1 := by decide
  have hkeywords : ∀ e ∈ keywords, Text.newline ∉ e.1 := by decide
  have hnumeral : ∀ ds, Number.isNumeral ds = true → Text.newline ∉ ds := by
    intro ds hds hmem
    exact absurd ((Number.isNumeral_iff.mp hds).2 _ hmem) (by decide)
  cases h with
  | name h =>
    have hw : Text.newline ∉ lexeme := by
      cases lexeme with
      | nil => simp
      | cons b w =>
        simp only [isName, Bool.and_eq_true, List.all_eq_true] at h
        rw [List.mem_cons, not_or]
        refine ⟨?_, fun hmem => absurd (h.1.2 _ hmem) (by decide)⟩
        rintro rfl
        exact absurd h.1.1 (by decide)
    exact ⟨Text.flat_of_not_mem hw, rfl⟩
  | int h =>
    have hw := Text.flat_of_not_mem (hnumeral _ h)
    exact ⟨hw, by simp only [Option.map_some, Payload.flat, hw]⟩
  | @float ds fs hd hf =>
    have hw : Text.flat (ds ++ byte '.' :: fs) = ds ++ byte '.' :: fs := by
      apply Text.flat_of_not_mem
      rw [List.mem_append, List.mem_cons, not_or, not_or]
      exact ⟨hnumeral ds hd, by decide, hnumeral fs hf⟩
    exact ⟨hw, by simp only [Option.map_some, Payload.flat, hw]⟩
  | @string inner h =>
    have hw := hstring rfl
    have hinner : Text.newline ∉ inner := fun hmem => hw (by simp [hmem])
    refine ⟨Text.flat_of_not_mem hw, ?_⟩
    simp only [Option.map_some, Payload.flat, Text.flat_of_not_mem hinner]
  | symbol h => exact ⟨Text.flat_of_not_mem (hsymbols _ h hkind), rfl⟩
  | keyword h hw =>
    have hflat := word_flatten (hkeywords _ h)
    rw [hw, flatten_token hkind] at hflat
    obtain ⟨-, hlexeme, hpayload⟩ := Piece.token.inj hflat
    exact ⟨hlexeme, hpayload⟩

/-- A source in which no string contains a line break, and every other line break stands between
tokens that would not join without it. -/
structure LineFree (s : Bytes) : Prop where
  strings : ∀ t ∈ bodyTokens s, t.kind = .string → Text.newline ∉ t.lexeme
  breaks : BreaksApart .newline (bodyTokens s)

instance (s : Bytes) : Decidable (LineFree s) :=
  decidable_of_iff (_ ∧ _) ⟨fun h => ⟨h.1, h.2⟩, fun h => ⟨h.strings, h.breaks⟩⟩

theorem bodyTokens_entry_of_strings {s : Bytes} (hscan : (scan s).errors = [])
    (hstrings : ∀ t ∈ bodyTokens s, t.kind = .string → Text.newline ∉ t.lexeme) :
    (bodyTokens (Repl.entry s)).map (Token.mapLine fun _ => 0) =
      (withoutBreaks (bodyTokens s)).map (Token.mapLine fun _ => 0) := by
  rw [bodyTokens_entry hscan, List.map_map]
  apply List.map_congr_left
  intro t ht
  obtain ⟨ht, hkind⟩ := List.mem_filter.mp ht
  obtain ⟨hlexeme, hpayload⟩ := (bodyTokens_spells ht).flat (by simpa using hkind) (hstrings t ht)
  simp only [Function.comp_apply, Token.flat, Token.mapLine, hlexeme, hpayload]

/-- Programs of tokens that differ in their lines. -/
theorem readProgram_of_map_eq {stop : Token} {ts us : List Token} {f : Int → Int}
    (h : ts.map (Token.mapLine f) = us.map (Token.mapLine f)) :
    (readProgram stop ts).mapLine f = (readProgram stop us).mapLine f := by
  rw [← readProgram_map, h, readProgram_map]

/-- A text without line breaks has no token with one. -/
theorem newline_not_mem_lexeme {s : Bytes} (h : Text.newline ∉ s) {t : Token}
    (ht : t ∈ bodyTokens s) : Text.newline ∉ t.lexeme := by
  intro hmem
  rw [← Piece.split_text s] at h
  exact h (List.mem_flatMap.mpr ⟨_, Piece.mem_of_mem_tokensFrom ht, hmem⟩)

theorem Piece.Spells.string_inner {lexeme : Bytes} {payload : Option Payload}
    (h : Spells .string lexeme payload) :
    ∃ inner, lexeme = byte '"' :: inner ++ [byte '"'] ∧ payload = some (.text inner) := by
  have hsymbols : ∀ e ∈ symbols, .string ≠ e.2 := by decide
  have hkeywords : ∀ e ∈ keywords, .string ≠ e.2 := by decide
  generalize hk : TokenKind.string = kind at h
  cases h with
  | @string inner h => exact ⟨inner, rfl, rfl⟩
  | symbol h => exact absurd hk (hsymbols _ h)
  | keyword h => exact absurd hk (hkeywords _ h)
  | _ => cases hk

theorem Token.literal_string {t : Token} (h : Piece.Spells t.kind t.lexeme t.payload)
    (hk : t.kind = .string) :
    ∃ inner, t.lexeme = byte '"' :: inner ++ [byte '"'] ∧ t.literal? = some (.string inner) := by
  rw [hk] at h
  obtain ⟨inner, hlexeme, hpayload⟩ := h.string_inner
  exact ⟨inner, hlexeme, by simp [literal?, hk, text?, hpayload]⟩

theorem Token.kind_of_literal {t : Token} {inner : Bytes}
    (h : t.literal? = some (.string inner)) : t.kind = .string := by
  unfold literal? at h
  cases hk : t.kind <;> simp [hk] at h ⊢

theorem lexeme_of_literal {t u : Token} (ht : Piece.Spells t.kind t.lexeme t.payload)
    (hu : Piece.Spells u.kind u.lexeme u.payload) (hk : t.kind = .string)
    (h : u.literal? = t.literal?) : u.lexeme = t.lexeme := by
  obtain ⟨inner, hlexeme, hliteral⟩ := Token.literal_string ht hk
  rw [hliteral] at h
  obtain ⟨inner', hlexeme', hliteral'⟩ := Token.literal_string hu (Token.kind_of_literal h)
  rw [hliteral', Option.some.injEq, Literal.string.injEq] at h
  rw [hlexeme, hlexeme', h]

/-! ## The entry -/

theorem statements_eq (s : Bytes) :
    statements s = (readProgram (.eof (1 + Text.newlines s)) (bodyTokens s)).statements := by
  rw [statements, parse_scan]

section Entry

variable {s : Bytes} (hs : check s = [])
include hs

/-- The entry has the statements of the text without its line breaks. -/
theorem statements_entry
    (hstrings : ∀ t ∈ bodyTokens s, t.kind = .string → Text.newline ∉ t.lexeme) :
    let stop : Token := .eof (1 + Text.newlines (Repl.entry s))
    let joined := readProgram stop (withoutBreaks (bodyTokens s))
    (check (Repl.entry s) = [] ↔ joined.errors = []) ∧
      (statements (Repl.entry s)).map Expr.unlined = joined.statements.map Expr.unlined := by
  intro stop joined
  have hscan := (List.append_eq_nil_iff.mp hs).1
  have hsame : (readProgram stop (bodyTokens (Repl.entry s))).mapLine (fun _ => 0) =
      joined.mapLine fun _ => 0 :=
    readProgram_of_map_eq (bodyTokens_entry_of_strings hscan hstrings)
  rw [check, scan_entry hscan, List.nil_append, statements, parse_scan]
  refine ⟨?_, congrArg Program.statements hsame⟩
  have herrors := congrArg Program.errors hsame
  simp only [Program.mapLine] at herrors
  rw [← List.map_eq_nil_iff, herrors, List.map_eq_nil_iff]

theorem strings_of_entry (hentry : check (Repl.entry s) = [])
    (hsame : (statements (Repl.entry s)).map Expr.unlined = (statements s).map Expr.unlined) :
    ∀ t ∈ bodyTokens s, t.kind = .string → Text.newline ∉ t.lexeme := by
  intro t ht hk
  have herr := (List.append_eq_nil_iff.mp hs).2
  have herr' := (List.append_eq_nil_iff.mp hentry).2
  have hmal := parse_scan_malformed s
  have hmal' := parse_scan_malformed (Repl.entry s)
  rw [parse_scan] at herr herr' hmal hmal'
  rw [statements_eq, statements_eq] at hsame
  obtain ⟨u, hu, hliteral⟩ := exists_string_of_statements herr hmal herr' hmal' hsame ht hk
  rw [← lexeme_of_literal (bodyTokens_spells ht) (bodyTokens_spells hu) hk hliteral]
  exact newline_not_mem_lexeme (Text.newline_not_mem_flat s) hu

/-- The entry is the same program exactly if the line breaks of the text do not matter. -/
theorem lineFree_iff : LineFree s ↔
    check (Repl.entry s) = [] ∧
      (statements (Repl.entry s)).map Expr.unlined = (statements s).map Expr.unlined := by
  have herr := (List.append_eq_nil_iff.mp hs).2
  have hmal := parse_scan_malformed s
  rw [parse_scan] at herr hmal
  have hbreaks := readProgram_withoutBreaks_iff (.eof (1 + Text.newlines (Repl.entry s))) herr hmal
  rw [← statements_eq] at hbreaks
  constructor
  · rintro ⟨hstrings, hapart⟩
    obtain ⟨hcheck, hentry⟩ := statements_entry hs hstrings
    obtain ⟨herr', -, hsame⟩ := hbreaks.mp hapart
    exact ⟨hcheck.mpr herr', hentry.trans hsame⟩
  · rintro ⟨hentry, hsame⟩
    have hstrings := strings_of_entry hs hentry hsame
    obtain ⟨hcheck, hjoined⟩ := statements_entry hs hstrings
    refine ⟨hstrings, hbreaks.mpr ⟨hcheck.mp hentry, ?_, hjoined.symm.trans hsame⟩⟩
    exact readProgram_malformed_eq_none _ fun t ht => bodyTokens_text (List.mem_filter.mp ht).1

end Entry

/-! ## Runs -/

/-- The same lines printed, and the same outcome and bindings up to line numbers. -/
structure Run.Agrees (r r' : Run) : Prop where
  outcome : r.outcome.mapLine (fun _ => 0) = r'.outcome.mapLine fun _ => 0
  printed : r.printed = r'.printed
  after : r.after.relabel (fun _ => 0) [] = r'.after.relabel (fun _ => 0) []

/-- A run without its lines is a run of the statements without their lines. -/
theorem Interpreter.run_unlined (fuel : Nat) (i : Interpreter) {s : Bytes} (hs : check s = []) :
    let steps := runStatements fuel (i.cleared.relabel (fun _ => 0) []) .null 0
      ((statements s).map Expr.unlined)
    (i.run fuel s).outcome.mapLine (fun _ => 0) = steps.1 ∧
      (i.run fuel s).printed = steps.2.2.machine.output ∧
      (i.run fuel s).after.relabel (fun _ => 0) [] = steps.2.2.cleared := by
  intro steps
  obtain ⟨houtcome, hprinted, -, hafter⟩ := run_checked fuel i hs
  obtain ⟨hvalue, hlater⟩ := @runStatements_relabel (fun _ => 0) [] fuel (statements s) i.cleared
    .null .null 0 0 fun _ => rfl
  have hsteps : steps = runStatements fuel (i.cleared.relabel (fun _ => 0) []) .null 0
      ((statements s).map (Expr.mapLine fun _ => 0)) := rfl
  rw [hsteps, hvalue, hlater, houtcome, hprinted, hafter]
  refine ⟨rfl, ?_, rfl⟩
  simp only [Machine.output, relabel, Machine.relabel, List.append_nil]

theorem Interpreter.run_agrees {a b : Bytes} (ha : check a = []) (hb : check b = [])
    (hsame : (statements a).map Expr.unlined = (statements b).map Expr.unlined) (fuel : Nat)
    (i : Interpreter) : (i.run fuel a).Agrees (i.run fuel b) := by
  obtain ⟨houtcome, hprinted, hafter⟩ := run_unlined fuel i ha
  obtain ⟨houtcome', hprinted', hafter'⟩ := run_unlined fuel i hb
  rw [hsame] at houtcome hprinted hafter
  exact ⟨houtcome.trans houtcome'.symm, hprinted.trans hprinted'.symm, hafter.trans hafter'.symm⟩

namespace Repl

theorem Session.entry_of_remember {fuel : Nat} {s : Session} {chunk e : Bytes}
    (h : .remember e ∈ (s.submit fuel chunk).1) : e = entry (Text.trim chunk) := by
  simp only [submit] at h
  split at h
  · cases h
  · split at h
    · split at h
      · cases h
      · simp at h
    · simpa using h

/-- What is remembered of a chunk without syntax errors is the same program exactly if no string of
the chunk contains a line break and no line break keeps two tokens apart that would join. Such an
entry does the same as the chunk in every interpreter. -/
theorem remembered_same_iff {fuel : Nat} {s : Session} {chunk e : Bytes}
    (h : .remember e ∈ (s.submit fuel chunk).1) (hcheck : check (Text.trim chunk) = []) :
    let code := Text.trim chunk
    (LineFree code ↔
      check e = [] ∧ (statements e).map Expr.unlined = (statements code).map Expr.unlined) ∧
      (LineFree code → ∀ k (i : Interpreter), (i.run k e).Agrees (i.run k code)) := by
  intro code
  rw [Session.entry_of_remember h]
  have hiff := lineFree_iff hcheck
  refine ⟨hiff, fun hfree k i => ?_⟩
  obtain ⟨hentry, hsame⟩ := hiff.mp hfree
  exact Interpreter.run_agrees hentry hcheck hsame k i

/-- A session without options. -/
def plainSession : Session := ⟨.new false, ⟨.error, false⟩, bytes "> "⟩

/-- A function, a conditional and a call on several lines each. -/
def spreadChunk : Bytes :=
  bytes "f := |x|\n if x > 0 \x7b\n print(x)\n x \x7d\n else\n -x\nf(\n1\n)\n"

theorem remembered_same_spreadChunk :
    let code := Text.trim spreadChunk
    .remember (entry code) ∈ (plainSession.submit 20 spreadChunk).1 ∧ check code = [] ∧
      LineFree code ∧ check (entry code) = [] ∧
      (statements (entry code)).map Expr.unlined = (statements code).map Expr.unlined ∧
      ((Interpreter.new true).run 20 (entry code)).Agrees
        ((Interpreter.new true).run 20 code) := by
  have hremember : .remember (entry (Text.trim spreadChunk)) ∈
      (plainSession.submit 20 spreadChunk).1 := by decide +kernel
  have hcheck : check (Text.trim spreadChunk) = [] := by decide +kernel
  have hfree : LineFree (Text.trim spreadChunk) := by decide +kernel
  obtain ⟨hiff, hruns⟩ := remembered_same_iff hremember hcheck
  obtain ⟨hentry, hsame⟩ := hiff.mp hfree
  exact ⟨hremember, hcheck, hfree, hentry, hsame, hruns hfree 20 (Interpreter.new true)⟩

theorem ne_of_formats {es es' : List Expr} (h : es.map Expr.format ≠ es'.map Expr.format) :
    es.map Expr.unlined ≠ es'.map Expr.unlined := by
  intro hsame
  have hformat : ∀ fs : List Expr, (fs.map Expr.unlined).map Expr.format = fs.map Expr.format := by
    intro fs
    rw [List.map_map]
    exact List.map_congr_left fun e _ => e.format_unlined
  exact h ((hformat es).symm.trans ((congrArg _ hsame).trans (hformat es')))

/-- The lines are collected to a chunk without syntax errors, but what is remembered of it has syntax
errors or other statements. -/
def Differs (lines : List Bytes) : Prop :=
  let code := Text.trim (joined lines)
  chunks [] (lines.map .line) = [joined lines] ∧
    .remember (entry code) ∈ (plainSession.submit 20 (joined lines)).1 ∧ check code = [] ∧
    ¬ (check (entry code) = [] ∧
      (statements (entry code)).map Expr.unlined = (statements code).map Expr.unlined)

theorem differs_of_formats {lines : List Bytes}
    (hchunks : chunks [] (lines.map .line) = [joined lines])
    (hremember : .remember (entry (Text.trim (joined lines))) ∈
      (plainSession.submit 20 (joined lines)).1)
    (hcheck : check (Text.trim (joined lines)) = [])
    (hformats : (statements (entry (Text.trim (joined lines)))).map Expr.format ≠
      (statements (Text.trim (joined lines))).map Expr.format) : Differs lines :=
  ⟨hchunks, hremember, hcheck, fun h => ne_of_formats hformats h.2⟩

/-- A line break that matters: in a string, in front of arguments, in front of a minus, between
`else` and `if`, and behind a condition. -/
theorem remembered_differs :
    Differs [bytes "\"a", bytes "b\""] ∧ Differs [bytes "\x7b f", bytes "(1) \x7d"] ∧
      Differs [bytes "\x7b a", bytes "-b \x7d"] ∧
      Differs [bytes "if a b else", bytes "if c d"] ∧
      Differs [bytes "\x7b if a", bytes "-b \x7d"] := by
  refine ⟨?_, ?_, ?_, ?_, ?_⟩
  · apply differs_of_formats <;> decide +kernel
  · apply differs_of_formats <;> decide +kernel
  · apply differs_of_formats <;> decide +kernel
  · apply differs_of_formats <;> decide +kernel
  · have hentry : check (entry (bytes "\x7b if a\n-b \x7d")) ≠ [] := by decide +kernel
    exact ⟨by decide +kernel, by decide +kernel, by decide +kernel, fun h => hentry h.1⟩

end Repl

end ExprLang
