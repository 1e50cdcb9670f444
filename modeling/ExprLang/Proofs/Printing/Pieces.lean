import ExprLang.Proofs.Printing.Normal
import ExprLang.Proofs.Scanning.Cut

/-!
# The pieces of a printed expression

The text of an expression is written here as a list of pieces: its tokens with the blanks between
them. No piece merges with the next one, so a scan of the text finds exactly these pieces.
-/

namespace ExprLang

/-! ## Pieces -/

namespace Piece

def space : Piece := .blank (byte ' ')

/-- A symbol or a keyword. -/
def mark (kind : TokenKind) (s : String) : Piece := .token kind (bytes s) none

def named (name : Bytes) : Piece := .token .identifier name none

end Piece

open Piece (space mark named)

def Literal.piece : Literal → Piece
  | .bool b => .word (bytes (if b then "true" else "false"))
  | .int n => .token .int (Number.intText n) (some (.text (Number.intText n)))
  | .float x => .token .float (Number.floatText x) (some (.text (Number.floatText x)))
  | .string s => .token .string (byte '"' :: s ++ [byte '"']) (some (.text s))

namespace Expr

/-- The pieces of an operand, given those of the expression. -/
def operandPieces (e : Expr) (ps : List Piece) : List Piece :=
  if e.isClosed then ps else mark .leftParen "(" :: ps ++ [mark .rightParen ")"]

/-- The pieces of a branch, given those of the expression. -/
def branchPieces (e : Expr) (ps : List Piece) : List Piece :=
  if e.isBlock then ps
  else [mark .leftBrace "\x7b", space] ++ ps ++ [space, mark .rightBrace "\x7d"]

end Expr

mutual

def Expr.pieces : Expr → List Piece
  | .literal value => [value.piece]
  | .variable name _ => [named name]
  | .grouping inner => mark .leftParen "(" :: inner.pieces ++ [mark .rightParen ")"]
  | .unary op spelling _ e => .token op.kind spelling none :: e.operandPieces e.pieces
  | .binary left op spelling _ right =>
    left.operandPieces left.pieces ++ [space, .token op.kind spelling none, space] ++
      right.operandPieces right.pieces
  | .assign name _ value => [named name, space, mark .assign ":=", space] ++ value.pieces
  | .block _ [] => [mark .leftBrace "\x7b", mark .rightBrace "\x7d"]
  | .block _ (e :: es) =>
    [mark .leftBrace "\x7b", space] ++
      [mark .semicolon ";", space].intercalate (e.pieces :: Expr.piecesAll es) ++
      [space, mark .rightBrace "\x7d"]
  | .cond _ test yes no =>
    [mark .ifWord "if", space] ++ test.operandPieces test.pieces ++ [space] ++
      yes.branchPieces yes.pieces ++ no.pieces
  | .each _ name items body =>
    [mark .forWord "for", space, named name, space, mark .assign ":=", space] ++
      items.operandPieces items.pieces ++ [space] ++ body.branchPieces body.pieces
  | .function _ params body =>
    [mark .bar "|"] ++ [space].intercalate (params.map fun name => [named name]) ++
      [mark .bar "|", space] ++ body.pieces
  | .call callee _ args =>
    callee.operandPieces callee.pieces ++ [mark .leftParen "("] ++
      [mark .comma ",", space].intercalate (Expr.piecesAll args) ++ [mark .rightParen ")"]

def Expr.piecesAll : List Expr → List (List Piece)
  | [] => []
  | e :: es => e.pieces :: Expr.piecesAll es

def Branches.pieces : Branches → List Piece
  | .done => []
  | .otherwise body => [space, mark .elseWord "else", space] ++ body.branchPieces body.pieces
  | .elseIf test yes no =>
    [space, mark .elseWord "else", space, mark .ifWord "if", space] ++
      test.operandPieces test.pieces ++ [space] ++ yes.branchPieces yes.pieces ++ no.pieces

end

namespace Expr

theorem piecesAll_eq (es : List Expr) : piecesAll es = es.map pieces := by
  induction es with
  | nil => rfl
  | cons e es ih => rw [piecesAll, List.map_cons, ih]

/-! ## Their texts -/

theorem flatMap_intercalate (sep : List Piece) (pss : List (List Piece)) :
    (sep.intercalate pss).flatMap Piece.text =
      (sep.flatMap Piece.text).intercalate (pss.map (·.flatMap Piece.text)) := by
  induction pss with
  | nil => rfl
  | cons ps pss ih =>
    cases pss with
    | nil => simp
    | cons qs pss =>
      simp only [List.intercalate_cons_cons, List.flatMap_append, List.map_cons] at ih ⊢
      rw [ih]

theorem operandPieces_text {e : Expr} (h : e.pieces.flatMap Piece.text = e.format) :
    (e.operandPieces e.pieces).flatMap Piece.text = e.asOperand e.format := by
  unfold operandPieces asOperand
  split
  · exact h
  · simp only [List.cons_append, List.flatMap_cons, List.flatMap_append, h]
    rfl

theorem branchPieces_text {e : Expr} (h : e.pieces.flatMap Piece.text = e.format) :
    (e.branchPieces e.pieces).flatMap Piece.text = e.asBranch e.format := by
  unfold branchPieces asBranch
  split
  · exact h
  · simp only [List.flatMap_append, h]
    rfl

theorem pieces_text_compositional :
    Compositional (fun e => e.pieces.flatMap Piece.text = e.format)
      (fun b => b.pieces.flatMap Piece.text = b.format) where
  literal value := by
    simp only [pieces, format, List.flatMap_cons, List.flatMap_nil, List.append_nil]
    cases value <;> rfl
  var name line := by simp [pieces, format, named, Piece.text]
  grouping inner h := by
    simp only [pieces, format, List.cons_append, List.flatMap_cons, List.flatMap_append, h]
    rfl
  unary op spelling line e h := by
    simp only [pieces, format, List.flatMap_cons, operandPieces_text h, Piece.text]
  binary left op spelling line right hl hr := by
    have hop : [space, .token op.kind spelling none, space].flatMap Piece.text =
        bytes " " ++ (spelling ++ bytes " ") := rfl
    simp only [pieces, format, List.flatMap_append, operandPieces_text hl, operandPieces_text hr,
      hop, List.append_assoc]
  assign name line value h := by
    have hname : [named name, space, mark .assign ":=", space].flatMap Piece.text =
        name ++ bytes " := " := rfl
    simp only [pieces, format, List.flatMap_append, h, hname]
  block line body h := by
    cases body with
    | nil => rfl
    | cons e es =>
      obtain ⟨he, hes⟩ := List.forall_mem_cons.mp h
      have hmap : (es.map pieces).map (·.flatMap Piece.text) = es.map format := by
        rw [List.map_map]
        exact List.map_congr_left hes
      simp only [pieces, format, piecesAll_eq, formatAll_eq, List.flatMap_append,
        flatMap_intercalate, List.map_cons, he, hmap]
      rfl
  cond line test yes no ht hy hn := by
    simp only [pieces, format, List.flatMap_append, operandPieces_text ht, branchPieces_text hy, hn]
    rfl
  each line name items body hi hb := by
    have hname : [mark .forWord "for", space, named name, space, mark .assign ":=",
        space].flatMap Piece.text = bytes "for " ++ (name ++ bytes " := ") := rfl
    have hspace : [space].flatMap Piece.text = bytes " " := rfl
    simp only [pieces, format, List.flatMap_append, operandPieces_text hi, branchPieces_text hb,
      hname, hspace, List.append_assoc]
  function line params body h := by
    have hmap : (params.map fun name => [named name]).map (·.flatMap Piece.text) = params := by
      simp [named, Piece.text, List.map_map, Function.comp_def]
    simp only [pieces, format, List.flatMap_append, flatMap_intercalate, hmap, h]
    rfl
  call callee line args hc ha := by
    have hmap : (args.map pieces).map (·.flatMap Piece.text) = args.map format := by
      rw [List.map_map]
      exact List.map_congr_left ha
    simp only [pieces, format, piecesAll_eq, formatAll_eq, List.flatMap_append,
      flatMap_intercalate, operandPieces_text hc, hmap]
    rfl
  done := rfl
  otherwise body h := by
    simp only [Branches.pieces, Branches.format, List.flatMap_append, branchPieces_text h]
    rfl
  elseIf test yes no ht hy hn := by
    simp only [Branches.pieces, Branches.format, List.flatMap_append, operandPieces_text ht,
      branchPieces_text hy, hn]
    rfl

/-- The pieces spell the text. -/
theorem pieces_text (e : Expr) : e.pieces.flatMap Piece.text = e.format :=
  pieces_text_compositional.expr e

end Expr

/-! ## None of them is an error -/

def Piece.isError : Piece → Bool
  | .stray .. | .unclosed _ => true
  | .token .. | .blank _ => false

/-- Pieces that a scan reports no error for. -/
def Faultless (ps : List Piece) : Prop := ps.all (fun p => !p.isError) = true

theorem Faultless.append {ps qs : List Piece} (hp : Faultless ps) (hq : Faultless qs) :
    Faultless (ps ++ qs) := by
  rw [Faultless, List.all_append, hp, hq]
  rfl

theorem faultless_intercalate {sep : List Piece} {pss : List (List Piece)} (hsep : Faultless sep)
    (h : ∀ ps ∈ pss, Faultless ps) : Faultless (sep.intercalate pss) := by
  induction pss with
  | nil => rfl
  | cons ps pss ih =>
    obtain ⟨hps, hpss⟩ := List.forall_mem_cons.mp h
    cases pss with
    | nil =>
      rw [List.intercalate_singleton]
      exact hps
    | cons qs pss =>
      rw [List.intercalate_cons_cons]
      exact (hps.append hsep).append (ih hpss)

theorem Faultless.operand {e : Expr} (h : Faultless e.pieces) :
    Faultless (e.operandPieces e.pieces) := by
  unfold Expr.operandPieces
  split
  · exact h
  · exact Faultless.append h (by rfl)

theorem Faultless.branch {e : Expr} (h : Faultless e.pieces) :
    Faultless (e.branchPieces e.pieces) := by
  unfold Expr.branchPieces
  split
  · exact h
  · exact (Faultless.append (by rfl) h).append (by rfl)

theorem faultless_map {es : List Expr} (h : ∀ e ∈ es, Faultless e.pieces) :
    ∀ ps ∈ es.map Expr.pieces, Faultless ps := by
  intro ps hps
  obtain ⟨e, he, rfl⟩ := List.mem_map.mp hps
  exact h e he

theorem faultless_compositional :
    Compositional (fun e => Faultless e.pieces) (fun b => Faultless b.pieces) where
  literal value := by cases value <;> rfl
  var name line := rfl
  grouping inner h := h.append (by rfl)
  unary op spelling line e h := h.operand
  binary left op spelling line right hl hr := (hl.operand.append (by rfl)).append hr.operand
  assign name line value h := h
  block line body h := by
    cases body with
    | nil => rfl
    | cons e es =>
      simp only [Expr.pieces, Expr.piecesAll_eq, ← List.map_cons]
      exact (Faultless.append (by rfl)
        (faultless_intercalate (by rfl) (faultless_map h))).append (by rfl)
  cond line test yes no ht hy hn :=
    (((Faultless.append (by rfl) ht.operand).append (by rfl)).append hy.branch).append hn
  each line name items body hi hb :=
    ((Faultless.append (by rfl) hi.operand).append (by rfl)).append hb.branch
  function line params body h := by
    have hnames : ∀ ps ∈ params.map fun name => [named name], Faultless ps := by
      intro ps hps
      obtain ⟨name, -, rfl⟩ := List.mem_map.mp hps
      rfl
    exact ((Faultless.append (by rfl)
      (faultless_intercalate (by rfl) hnames)).append (by rfl)).append h
  call callee line args hc ha := by
    simp only [Expr.pieces, Expr.piecesAll_eq]
    exact ((hc.operand.append (by rfl)).append
      (faultless_intercalate (by rfl) (faultless_map ha))).append (by rfl)
  done := rfl
  otherwise body h := h.branch
  elseIf test yes no ht hy hn :=
    (((Faultless.append (by rfl) ht.operand).append (by rfl)).append hy.branch).append hn

/-! ## No two of them merge -/

section Cuts

open Piece

theorem cut_mark {kind : TokenKind} {s : String} (h : (bytes s, kind) ∈ symbols)
    (hx : isExtensible (bytes s) = false) (rest : Bytes) : (mark kind s).Cut rest := by
  refine cut_symbol h fun hc => ?_
  rw [hx] at hc
  cases hc

theorem cut_keyword {kind : TokenKind} {s : String} (h : (bytes s, kind) ∈ keywords)
    (hw : word (bytes s) = mark kind s) {rest : Bytes} (hr : stops rest = true) :
    (mark kind s).Cut rest :=
  cut_of_stops (Spells.keyword h hw) hr

theorem cut_named {name : Bytes} (h : isName name = true) {rest : Bytes} (hr : stops rest = true) :
    (named name).Cut rest :=
  cut_of_stops (Spells.name h) hr

theorem cut_literal {value : Literal} (h : value.isWellFormed = true) {rest : Bytes}
    (hr : stops rest = true) : value.piece.Cut rest := by
  cases value with
  | bool b => cases b <;> exact cut_of_stops (Spells.keyword (by decide) rfl) hr
  | int n =>
    have hn : 0 ≤ n := by simpa [Literal.isWellFormed] using h
    exact cut_of_stops (Spells.int (Number.isNumeral_intText hn)) hr
  | float x =>
    obtain ⟨ds, fs, htext, hd, hf, -⟩ := Number.floatText_eq h
    rw [Literal.piece, htext]
    exact cut_of_stops (Spells.float hd hf) hr
  | string s =>
    have hs : byte '"' ∉ s := by simpa [Literal.isWellFormed] using h
    exact cut_of_stops (Spells.string hs) hr

theorem cut_operator {op : BinaryOp} {spelling : Bytes} (h : op.spellings.contains spelling = true)
    {rest : Bytes} (hr : stops rest = true) : (Piece.token op.kind spelling none).Cut rest := by
  have htable : ∀ w ∈ op.spellings, (w, op.kind) ∈ symbols ∨
      ((w, op.kind) ∈ keywords ∧ word w = .token op.kind w none) := by
    cases op <;> decide
  rcases htable spelling (List.contains_iff_mem.mp h) with hs | ⟨hk, hw⟩
  · exact cut_of_stops (Spells.symbol hs) hr
  · exact cut_of_stops (Spells.keyword hk hw) hr

/-- The text of an expression does not start with `=`. -/
def OpensWell (e : Expr) : Prop := ∃ b s, e.format = b :: s ∧ b ≠ byte '='

theorem opens_name {name : Bytes} (h : isName name = true) (s : Bytes) :
    ∃ b t, name ++ s = b :: t ∧ b ≠ byte '=' := by
  cases name with
  | nil => cases h
  | cons b t =>
    refine ⟨b, t ++ s, rfl, ?_⟩
    rintro rfl
    simp only [isName, Bool.and_eq_true] at h
    exact absurd h.1.1 (by decide)

theorem opens_numeral {ds : Bytes} (h : Number.isNumeral ds = true) (s : Bytes) :
    ∃ b t, ds ++ s = b :: t ∧ b ≠ byte '=' := by
  obtain ⟨b, t, rfl, hb⟩ := Number.exists_cons_of_isNumeral h
  exact ⟨b, t ++ s, rfl, Number.ne_of_isDigit hb (by decide)⟩

theorem opens_operand {e : Expr} (h : OpensWell e) (s : Bytes) :
    ∃ b t, e.asOperand e.format ++ s = b :: t ∧ b ≠ byte '=' := by
  unfold Expr.asOperand
  split
  · obtain ⟨b, t, ht, hb⟩ := h
    exact ⟨b, t ++ s, by rw [ht, List.cons_append], hb⟩
  · exact ⟨_, _, rfl, by decide⟩

theorem opensWell_compositional :
    Compositional (fun e => e.isWellFormed = true → OpensWell e) (fun _ => True) where
  literal value h := by
    cases value with
    | bool b => cases b <;> exact ⟨_, _, rfl, by decide⟩
    | int n =>
      have hn : 0 ≤ n := by simpa [Expr.isWellFormed, Literal.isWellFormed] using h
      have ho := opens_numeral (Number.isNumeral_intText hn) []
      rwa [List.append_nil] at ho
    | float x =>
      obtain ⟨ds, fs, htext, hd, -, -⟩ := Number.floatText_eq h
      have ho := opens_numeral hd (byte '.' :: fs)
      rwa [← htext] at ho
    | string s => exact ⟨_, _, rfl, by decide⟩
  var name line h := by
    have ho := opens_name h []
    rwa [List.append_nil] at ho
  grouping inner _ _ := ⟨_, _, rfl, by decide⟩
  unary op spelling line e _ h := by
    simp only [Expr.isWellFormed, Bool.and_eq_true, beq_iff_eq] at h
    rw [h.1]
    cases op <;> exact ⟨_, _, rfl, by decide⟩
  binary left op spelling line right hl _ h := by
    simp only [Expr.isWellFormed, Bool.and_eq_true] at h
    simp only [OpensWell, Expr.format, List.append_assoc]
    exact opens_operand (hl h.2.1) _
  assign name line value _ h := by
    simp only [Expr.isWellFormed, Bool.and_eq_true] at h
    simp only [OpensWell, Expr.format, List.append_assoc]
    exact opens_name h.1 _
  block line body _ _ := by cases body <;> exact ⟨_, _, rfl, by decide⟩
  cond line test yes no _ _ _ _ := ⟨_, _, rfl, by decide⟩
  each line name items body _ _ _ := ⟨_, _, rfl, by decide⟩
  function line params body _ _ := ⟨_, _, rfl, by decide⟩
  call callee line args hc _ h := by
    simp only [Expr.isWellFormed, Bool.and_eq_true] at h
    simp only [OpensWell, Expr.format, List.append_assoc]
    exact opens_operand (hc h.1) _
  done := trivial
  otherwise _ _ := trivial
  elseIf _ _ _ _ _ _ := trivial

/-- The pieces are cut off a text that goes on with something else. -/
def CutsOff (ps : List Piece) : Prop := ∀ rest, stops rest = true → Cuts ps rest

theorem cuts_operand {e : Expr} (h : CutsOff e.pieces) : CutsOff (e.operandPieces e.pieces) := by
  intro rest hr
  unfold Expr.operandPieces
  split
  · exact h rest hr
  · rw [List.cons_append, Cuts, cuts_append]
    exact ⟨cut_mark (by decide) (by decide) _, h _ rfl, cut_mark (by decide) (by decide) _, trivial⟩

theorem cuts_branch {e : Expr} (h : CutsOff e.pieces) : CutsOff (e.branchPieces e.pieces) := by
  intro rest hr
  unfold Expr.branchPieces
  split
  · exact h rest hr
  · rw [cuts_append, cuts_append]
    exact ⟨⟨⟨cut_mark (by decide) (by decide) _, cut_blank _, trivial⟩, h _ rfl⟩, cut_blank _,
      cut_mark (by decide) (by decide) _, trivial⟩

theorem cuts_intercalate {sep : List Piece} {pss : List (List Piece)}
    (hsep : ∀ rest, Cuts sep rest) (hstop : ∀ rest, stops (sep.flatMap text ++ rest) = true)
    (h : ∀ ps ∈ pss, CutsOff ps) : CutsOff (sep.intercalate pss) := by
  induction pss with
  | nil =>
    intro rest _
    trivial
  | cons ps pss ih =>
    obtain ⟨hps, hpss⟩ := List.forall_mem_cons.mp h
    cases pss with
    | nil =>
      rw [List.intercalate_singleton]
      exact hps
    | cons qs pss =>
      intro rest hr
      rw [List.intercalate_cons_cons, cuts_append, cuts_append]
      refine ⟨⟨hps _ ?_, hsep _⟩, ih hpss rest hr⟩
      exact hstop _

theorem cuts_unary {op : UnaryOp} {e : Expr} (he : e.isWellFormed = true)
    (h : CutsOff e.pieces) :
    CutsOff (.token op.kind op.spelling none :: e.operandPieces e.pieces) := by
  intro rest hr
  refine ⟨cut_symbol (e := (op.spelling, op.kind)) (by cases op <;> decide) fun _ s hs => ?_,
    cuts_operand h rest hr⟩
  obtain ⟨b, t, ht, hb⟩ := opens_operand (opensWell_compositional.expr e he) rest
  rw [Expr.operandPieces_text e.pieces_text, ht] at hs
  exact hb (List.cons.inj hs).1

theorem cuts_map {es : List Expr} (h : ∀ e ∈ es, e.isWellFormed = true → CutsOff e.pieces)
    (hes : Expr.areWellFormed es = true) : ∀ ps ∈ es.map Expr.pieces, CutsOff ps := by
  intro ps hps
  obtain ⟨e, he, rfl⟩ := List.mem_map.mp hps
  exact h e he (Expr.areWellFormed_iff.mp hes e he)

theorem cuts_binary {left right : Expr} {op : BinaryOp} {spelling : Bytes} {line : Int}
    (hop : op.spellings.contains spelling = true) (hl : CutsOff left.pieces)
    (hr : CutsOff right.pieces) : CutsOff (Expr.binary left op spelling line right).pieces := by
  intro rest hrest
  simp only [Expr.pieces]
  rw [cuts_append, cuts_append]
  exact ⟨⟨cuts_operand hl _ rfl, cut_blank _, cut_operator hop rfl, cut_blank _, trivial⟩,
    cuts_operand hr rest hrest⟩

theorem cuts_assign {name : Bytes} {line : Int} {value : Expr} (hname : isName name = true)
    (h : CutsOff value.pieces) : CutsOff (Expr.assign name line value).pieces := by
  intro rest hr
  simp only [Expr.pieces]
  rw [cuts_append]
  exact ⟨⟨cut_named hname rfl, cut_blank _, cut_mark (by decide) (by decide) _, cut_blank _,
    trivial⟩, h rest hr⟩

theorem cuts_block {line : Int} {body : List Expr} (h : ∀ ps ∈ body.map Expr.pieces, CutsOff ps) :
    CutsOff (Expr.block line body).pieces := by
  intro rest hr
  cases body with
  | nil => exact ⟨cut_mark (by decide) (by decide) _, cut_mark (by decide) (by decide) _, trivial⟩
  | cons e es =>
    have hsep : ∀ rest, Cuts [mark .semicolon ";", space] rest := fun rest =>
      ⟨cut_mark (by decide) (by decide) _, cut_blank _, trivial⟩
    simp only [Expr.pieces, Expr.piecesAll_eq]
    rw [cuts_append, cuts_append]
    exact ⟨⟨⟨cut_mark (by decide) (by decide) _, cut_blank _, trivial⟩,
      cuts_intercalate hsep (fun rest => rfl) h _ rfl⟩, cut_blank _,
      cut_mark (by decide) (by decide) _, trivial⟩

/-- What follows a branch: pieces that are cut off, behind a blank if there are any. -/
structure CutsOffBehind (b : Branches) : Prop where
  cuts : CutsOff b.pieces
  stops : ∀ rest, stops rest = true → stops (b.pieces.flatMap text ++ rest) = true

theorem cuts_cond {line : Int} {test yes : Expr} {no : Branches} (ht : CutsOff test.pieces)
    (hy : CutsOff yes.pieces) (hn : CutsOffBehind no) :
    CutsOff (Expr.cond line test yes no).pieces := by
  intro rest hr
  simp only [Expr.pieces]
  rw [cuts_append, cuts_append, cuts_append, cuts_append]
  exact ⟨⟨⟨⟨⟨cut_keyword (by decide) rfl rfl, cut_blank _, trivial⟩, cuts_operand ht _ rfl⟩,
    cut_blank _, trivial⟩, cuts_branch hy _ (hn.stops rest hr)⟩, hn.cuts rest hr⟩

theorem cuts_otherwise {body : Expr} (h : CutsOff body.pieces) :
    CutsOffBehind (.otherwise body) where
  cuts rest hr := by
    simp only [Branches.pieces]
    rw [cuts_append]
    exact ⟨⟨cut_blank _, cut_keyword (by decide) rfl rfl, cut_blank _, trivial⟩,
      cuts_branch h rest hr⟩
  stops _ _ := rfl

theorem cuts_elseIf {test yes : Expr} {no : Branches} (ht : CutsOff test.pieces)
    (hy : CutsOff yes.pieces) (hn : CutsOffBehind no) : CutsOffBehind (.elseIf test yes no) where
  cuts rest hr := by
    simp only [Branches.pieces]
    rw [cuts_append, cuts_append, cuts_append, cuts_append]
    exact ⟨⟨⟨⟨⟨cut_blank _, cut_keyword (by decide) rfl rfl, cut_blank _,
      cut_keyword (by decide) rfl rfl, cut_blank _, trivial⟩, cuts_operand ht _ rfl⟩,
      cut_blank _, trivial⟩, cuts_branch hy _ (hn.stops rest hr)⟩, hn.cuts rest hr⟩
  stops _ _ := rfl

theorem cuts_each {line : Int} {name : Bytes} {items body : Expr} (hname : isName name = true)
    (hi : CutsOff items.pieces) (hb : CutsOff body.pieces) :
    CutsOff (Expr.each line name items body).pieces := by
  intro rest hr
  simp only [Expr.pieces]
  rw [cuts_append, cuts_append, cuts_append]
  exact ⟨⟨⟨⟨cut_keyword (by decide) rfl rfl, cut_blank _, cut_named hname rfl, cut_blank _,
    cut_mark (by decide) (by decide) _, cut_blank _, trivial⟩, cuts_operand hi _ rfl⟩,
    cut_blank _, trivial⟩, cuts_branch hb rest hr⟩

theorem cuts_function {line : Int} {params : List Bytes} {body : Expr}
    (hparams : ∀ name ∈ params, isName name = true) (h : CutsOff body.pieces) :
    CutsOff (Expr.function line params body).pieces := by
  have hnames : ∀ ps ∈ params.map fun name => [named name], CutsOff ps := by
    intro ps hps rest hr
    obtain ⟨name, hname, rfl⟩ := List.mem_map.mp hps
    exact ⟨cut_named (hparams name hname) hr, trivial⟩
  have hsep : ∀ rest, Cuts [space] rest := fun rest => ⟨cut_blank _, trivial⟩
  intro rest hr
  simp only [Expr.pieces]
  rw [cuts_append, cuts_append, cuts_append]
  exact ⟨⟨⟨⟨cut_mark (by decide) (by decide) _, trivial⟩,
    cuts_intercalate hsep (fun rest => rfl) hnames _ rfl⟩,
    cut_mark (by decide) (by decide) _, cut_blank _, trivial⟩, h rest hr⟩

theorem cuts_call {callee : Expr} {line : Int} {args : List Expr} (hc : CutsOff callee.pieces)
    (ha : ∀ ps ∈ args.map Expr.pieces, CutsOff ps) :
    CutsOff (Expr.call callee line args).pieces := by
  have hsep : ∀ rest, Cuts [mark .comma ",", space] rest := fun rest =>
    ⟨cut_mark (by decide) (by decide) _, cut_blank _, trivial⟩
  intro rest hr
  simp only [Expr.pieces, Expr.piecesAll_eq]
  rw [cuts_append, cuts_append, cuts_append]
  exact ⟨⟨⟨cuts_operand hc _ rfl, cut_mark (by decide) (by decide) _, trivial⟩,
    cuts_intercalate hsep (fun rest => rfl) ha _ rfl⟩, cut_mark (by decide) (by decide) _, trivial⟩

theorem cuts_compositional :
    Compositional (fun e => e.isWellFormed = true → CutsOff e.pieces)
      (fun b => b.isWellFormed = true → CutsOffBehind b) where
  literal value h rest hr := ⟨cut_literal h hr, trivial⟩
  var name line h rest hr := ⟨cut_named h hr, trivial⟩
  grouping inner ih h := by
    intro rest hr
    simp only [Expr.pieces, List.cons_append]
    rw [Cuts, cuts_append]
    exact ⟨cut_mark (by decide) (by decide) _, ih h _ rfl, cut_mark (by decide) (by decide) _,
      trivial⟩
  unary op spelling line e ih h := by
    simp only [Expr.isWellFormed, Bool.and_eq_true, beq_iff_eq] at h
    obtain ⟨rfl, he⟩ := h
    exact cuts_unary he (ih he)
  binary left op spelling line right hl hr h := by
    simp only [Expr.isWellFormed, Bool.and_eq_true] at h
    exact cuts_binary h.1 (hl h.2.1) (hr h.2.2)
  assign name line value ih h := by
    simp only [Expr.isWellFormed, Bool.and_eq_true] at h
    exact cuts_assign h.1 (ih h.2)
  block line body ih h := cuts_block (cuts_map ih h)
  cond line test yes no ht hy hn h := by
    simp only [Expr.isWellFormed, Bool.and_eq_true] at h
    exact cuts_cond (ht h.1) (hy h.2.1) (hn h.2.2)
  each line name items body hi hb h := by
    simp only [Expr.isWellFormed, Bool.and_eq_true] at h
    exact cuts_each h.1 (hi h.2.1) (hb h.2.2)
  function line params body ih h := by
    simp only [Expr.isWellFormed, Bool.and_eq_true, List.all_eq_true] at h
    exact cuts_function h.1 (ih h.2)
  call callee line args hc ha h := by
    simp only [Expr.isWellFormed, Bool.and_eq_true] at h
    exact cuts_call (hc h.1) (cuts_map ha h.2)
  done _ := ⟨fun rest hr => trivial, fun rest hr => hr⟩
  otherwise body ih h := cuts_otherwise (ih h)
  elseIf test yes no ht hy hn h := by
    simp only [Branches.isWellFormed, Bool.and_eq_true] at h
    exact cuts_elseIf (ht h.1) (hy h.2.1) (hn h.2.2)

end Cuts

/-- The pieces of several statements, one to a line. -/
def Expr.programPieces (es : List Expr) : List Piece :=
  [Piece.lineBreak].intercalate (es.map Expr.pieces)

/-- A scan of printed statements finds their pieces. -/
theorem Expr.split_formatProgram {es : List Expr} (h : ∀ e ∈ es, e.isWellFormed = true) :
    Piece.split (Expr.formatProgram es) = Expr.programPieces es := by
  have htext : (Expr.programPieces es).flatMap Piece.text = Expr.formatProgram es := by
    rw [Expr.programPieces, Expr.flatMap_intercalate, List.map_map, Expr.formatProgram]
    refine congrArg (List.intercalate _) (List.map_congr_left fun e _ => ?_)
    exact e.pieces_text
  have hsep : ∀ rest, Piece.Cuts [Piece.lineBreak] rest := fun rest =>
    ⟨⟨Text.newline, [], rfl, rfl⟩, trivial⟩
  have hcuts : Piece.Cuts (Expr.programPieces es) [] := by
    refine cuts_intercalate hsep (fun rest => rfl) (fun ps hps => ?_) [] rfl
    obtain ⟨e, he, rfl⟩ := List.mem_map.mp hps
    exact cuts_compositional.expr e (h e he)
  have hsplit := Piece.split_of_cuts hcuts
  rwa [htext, List.append_nil, Piece.split_nil, List.append_nil] at hsplit

theorem errorsFrom_faultless {ps : List Piece} (h : Faultless ps) (line : Int) :
    Piece.errorsFrom line ps = [] := by
  rw [Piece.errorsFrom, List.filterMap_eq_nil_iff]
  intro p hp
  obtain ⟨n, piece⟩ := p
  have herr := List.all_eq_true.mp h piece (Piece.mem_of_mem_locate hp)
  cases piece with
  | token kind lexeme payload => rfl
  | blank b => rfl
  | stray c text => cases herr
  | unclosed text => cases herr

/-- A scan of printed statements reports no error. -/
theorem Expr.scan_formatProgram_errors {es : List Expr} (h : ∀ e ∈ es, e.isWellFormed = true) :
    (scan (Expr.formatProgram es)).errors = [] := by
  rw [Piece.scan_eq, Expr.split_formatProgram h]
  refine errorsFrom_faultless (faultless_intercalate (by rfl) ?_) 1
  exact faultless_map fun e _ => faultless_compositional.expr e

end ExprLang
