import ExprLang.Proofs.Parsing.Program
import ExprLang.Proofs.Printing.Normal

/-!
# Parsing a scanned text

Scanned tokens have lexemes of their kind. What the parser makes of such tokens is well formed: its
names are words other than keywords, its numbers and strings can be spelled, and its operators carry
their own lexemes.
-/

namespace ExprLang

open ExprLang.Parser

/-! ## The tokens of a text -/

theorem bodyTokens_ne_eof {s : Bytes} {t : Token} (h : t ∈ bodyTokens s) : t.kind ≠ .eof :=
  (bodyTokens_spells h).ne_eof

theorem parse_scan (s : Bytes) :
    parse (scan s).tokens = readProgram (.eof (1 + Text.newlines s)) (bodyTokens s) := by
  rw [scan_tokens]
  exact parse_body (fun t => bodyTokens_ne_eof) rfl []

theorem parse_scan_malformed (s : Bytes) : (parse (scan s).tokens).malformed = none := by
  rw [parse_scan]
  exact readProgram_malformed_eq_none _ fun t => bodyTokens_text

/-- Renumbering the lines of a program. -/
theorem readProgram_map (f : Int → Int) (stop : Token) (ts : List Token) :
    readProgram (stop.mapLine f) (ts.map (Token.mapLine f)) =
      (readProgram stop ts).mapLine f := by
  simp only [readProgram, List.length_map]
  exact program_map f stop _ ts

/-! ## The lexemes of operators -/

namespace Piece.Spells

variable {kind : TokenKind} {lexeme : Bytes} {payload : Option Payload}

theorem unaryOp {op : UnaryOp} (h : Spells kind lexeme payload)
    (hop : UnaryOp.ofKind? kind = some op) : lexeme = op.spelling := by
  have hs : ∀ e ∈ symbols, (UnaryOp.ofKind? e.2).all (fun op => e.1 = op.spelling) = true := by
    decide
  have hk : ∀ e ∈ keywords, UnaryOp.ofKind? e.2 = none := by decide
  cases h with
  | symbol h => simpa [hop] using hs _ h
  | keyword h =>
    rw [hk _ h] at hop
    cases hop
  | _ => cases hop

theorem binaryOp {op : BinaryOp} (h : Spells kind lexeme payload)
    (hop : BinaryOp.ofKind? kind = some op) : op.spellings.contains lexeme = true := by
  have hs : ∀ e ∈ symbols,
      (BinaryOp.ofKind? e.2).all (fun op => op.spellings.contains e.1) = true := by decide
  have hk : ∀ e ∈ keywords,
      (BinaryOp.ofKind? e.2).all (fun op => op.spellings.contains e.1) = true := by decide
  cases h with
  | symbol h => simpa [hop] using hs _ h
  | keyword h => simpa [hop] using hk _ h
  | _ => cases hop

end Piece.Spells

namespace Parser

/-- Tokens with lexemes of their kind. -/
def Spelt (ts : List Token) : Prop := ∀ t ∈ ts, Piece.Spells t.kind t.lexeme t.payload

theorem Spelt.of_suffix {us ts : List Token} (h : Spelt ts) (hs : us <:+ ts) : Spelt us :=
  fun t ht => h t (hs.subset ht)

theorem Spelt.of_cons {t : Token} {ts : List Token} (h : Spelt (t :: ts)) :
    Piece.Spells t.kind t.lexeme t.payload ∧ Spelt ts :=
  List.forall_mem_cons.mp h

/-! ## Well-formed expressions -/

theorem literal_isWellFormed {t : Token} {value : Literal}
    (ht : Piece.Spells t.kind t.lexeme t.payload) (h : t.literal? = some value) :
    value.isWellFormed = true := by
  unfold Token.literal? at h
  split at h
  · cases h
    rfl
  · cases h
    rfl
  · rename_i hk
    rw [hk] at ht
    obtain ⟨n, hn, rfl⟩ := Option.map_eq_some_iff.mp h
    simpa [Literal.isWellFormed] using Number.nonneg_of_readInt? ht.fits hn
  · rename_i hk
    rw [hk] at ht
    obtain ⟨x, hx, rfl⟩ := Option.map_eq_some_iff.mp h
    obtain ⟨ds, fs, hl, hd, hf⟩ := ht.fits
    rw [hl] at hx
    exact Number.isPlain_of_readFloat? hd hf hx
  · rename_i hk
    rw [hk] at ht
    obtain ⟨s, hs, rfl⟩ := Option.map_eq_some_iff.mp h
    obtain ⟨inner, hq, hp⟩ := ht.fits
    have htext : t.text? = some inner := by simp [Token.text?, hp]
    obtain rfl : inner = s := Option.some.inj (htext.symm.trans hs)
    simpa [Literal.isWellFormed] using hq
  · cases h

/-- A phrase is well formed if what it goes on from is. -/
def Phrase.Sound : (p : Phrase) → p.Value → Prop
  | .operand _, e | .unary, e | .primary, e => e.isWellFormed = true
  | .chain _ left, e | .calls left, e => left.isWellFormed = true → e.isWellFormed = true
  | .arguments, es | .moreArguments, es | .block, es => Expr.areWellFormed es = true
  | .parameters, names => names.all Piece.isName = true
  | .branches, b => b.isWellFormed = true

theorem isName_of_spells {t : Token} (h : Piece.Spells t.kind t.lexeme t.payload)
    (hk : t.kind = .identifier) : Piece.isName t.lexeme = true := by
  rw [hk] at h
  exact h.fits

/-- An expression and the list behind it. -/
theorem areWellFormed_cons {e : Expr} {es : List Expr} (he : e.isWellFormed = true)
    (hes : Expr.areWellFormed es = true) : Expr.areWellFormed (e :: es) = true := by
  simp only [Expr.areWellFormed, he, hes, Bool.and_self]

/-- What such tokens derive is well formed. -/
theorem Derives.sound {p : Phrase} {ts rest : List Token} {v : p.Value} (h : Derives p ts v rest)
    (hts : Spelt ts) : p.Sound v := by
  induction h with
  | unaryOperand _ ih => exact ih (hts.of_suffix (skipNewlines_suffix _))
  | level first _ hfirst hmore => exact hmore (hts.of_suffix first.suffix) (hfirst hts)
  | chainEnd | callsEnd => exact id
  | @operator l op t ts _ _ left right _ hop second _ hsecond hmore =>
    intro hleft
    have hkind : BinaryOp.ofKind? t.kind = some op := (Option.filter_eq_some_iff.mp hop).1
    have hright : right.isWellFormed = true := hsecond hts.of_cons.2
    refine hmore (hts.of_cons.2.of_suffix second.suffix) ?_
    simp only [Expr.isWellFormed, hts.of_cons.1.binaryOp hkind, hleft, hright, Bool.and_self]
  | @sign op t ts _ e hop _ ih =>
    have he : e.isWellFormed = true := ih (hts.of_cons.2.of_suffix (skipNewlines_suffix ts))
    simp only [Phrase.Sound, Expr.isWellFormed, hts.of_cons.1.unaryOp hop, he, BEq.rfl,
      Bool.and_self]
  | unsigned _ first _ hfirst hmore => exact hmore (hts.of_suffix first.suffix) (hfirst hts)
  | @call callee _ t ts _ _ args _ list _ hlist hmore =>
    intro hcallee
    have hskip := hts.of_cons.2.of_suffix (skipNewlines_suffix ts)
    have hargs : Expr.areWellFormed args = true := hlist hskip
    refine hmore (hskip.of_suffix list.suffix) ?_
    simp only [Expr.isWellFormed, hcallee, hargs, Bool.and_self]
  | noArguments | argumentsEnd | parametersEnd | noElse | blockEnd => rfl
  | firstArgument _ first _ hfirst hmore =>
    have hus := hts.of_suffix first.suffix
    exact areWellFormed_cons (hfirst hts) (hmore (hus.of_suffix (skipNewlines_suffix _)))
  | nextArgument _ first _ hfirst hmore =>
    have hus := hts.of_cons.2.of_suffix first.suffix
    exact areWellFormed_cons (hfirst hts.of_cons.2)
      (hmore (hus.of_suffix (skipNewlines_suffix _)))
  | statement _ first _ hfirst hmore =>
    have hus := hts.of_suffix first.suffix
    exact areWellFormed_cons (hfirst hts) (hmore (hus.of_suffix (skipSeparators_suffix _)))
  | literal ht => exact literal_isWellFormed hts.of_cons.1 ht
  | reference ht => exact isName_of_spells hts.of_cons.1 ht
  | @assignment t _ _ _ value ht _ _ ih =>
    have hname := isName_of_spells hts.of_cons.1 ht
    have hvalue : value.isWellFormed = true := ih hts.of_cons.2.of_cons.2
    simp only [Phrase.Sound, Expr.isWellFormed, hname, hvalue, Bool.and_self]
  | grouping _ _ _ _ ih => exact ih hts.of_cons.2
  | braces _ _ ih => exact ih (hts.of_cons.2.of_suffix (skipSeparators_suffix _))
  | @function t _ _ _ params body _ list _ hlist hbody =>
    have hparams : params.all Piece.isName = true := hlist hts.of_cons.2
    have hvalue : body.isWellFormed = true := hbody (hts.of_cons.2.of_suffix list.suffix)
    simp only [Phrase.Sound, Expr.isWellFormed, hparams, hvalue, Bool.and_self]
  | @loop t name sign _ _ _ items body _ hname _ first _ hfirst hsecond =>
    have hts := hts.of_cons.2
    have hword := isName_of_spells hts.of_cons.1 hname
    have hus := hts.of_cons.2.of_cons.2
    have hitems : items.isWellFormed = true := hfirst hus
    have hvalue : body.isWellFormed = true := hsecond (hus.of_suffix first.suffix)
    simp only [Phrase.Sound, Expr.isWellFormed, hword, hitems, hvalue, Bool.and_self]
  | @conditional t _ _ _ _ test yes no _ first second _ hfirst hsecond hmore =>
    have hus := hts.of_cons.2.of_suffix first.suffix
    have htest : test.isWellFormed = true := hfirst hts.of_cons.2
    have hyes : yes.isWellFormed = true := hsecond hus
    have hno : no.isWellFormed = true := hmore (hus.of_suffix second.suffix)
    simp only [Phrase.Sound, Expr.isWellFormed, htest, hyes, hno, Bool.and_self]
  | @parameter t _ _ names ht _ ih =>
    have hname := isName_of_spells hts.of_cons.1 ht
    have hnames : names.all Piece.isName = true := ih hts.of_cons.2
    simp only [Phrase.Sound, List.all_cons, hname, hnames, Bool.and_self]
  | @otherwise t ts us _ _ hskip _ _ _ ih =>
    have hus := hts.of_suffix (skipNewlines_suffix ts)
    rw [hskip] at hus
    exact ih hus.of_cons.2
  | @elseIf t u ts us _ _ _ test yes no hskip _ _ first second _ hfirst hsecond hmore =>
    have hus := hts.of_suffix (skipNewlines_suffix ts)
    rw [hskip] at hus
    have hvs := hus.of_cons.2.of_cons.2
    have hws := hvs.of_suffix first.suffix
    have htest : test.isWellFormed = true := hfirst hvs
    have hyes : yes.isWellFormed = true := hsecond hws
    have hno : no.isWellFormed = true := hmore (hws.of_suffix second.suffix)
    simp only [Phrase.Sound, Branches.isWellFormed, htest, hyes, hno, Bool.and_self]

/-- Every statement read from such tokens is well formed, also between errors. -/
theorem readProgram_isWellFormed (stop : Token) (ts : List Token) (h : Spelt ts) :
    ∀ e ∈ (readProgram stop ts).statements, e.isWellFormed = true := by
  induction ts using readProgram_induct with
  | blank ts hd =>
    rw [readProgram_nil hd]
    intro e he
    cases he
  | read ts e left hr ih =>
    have hread := derives_of_statement hr
    have hts := h.of_suffix (skipSeparators_suffix ts)
    rw [readProgram_ok hr]
    exact List.forall_mem_cons.mpr ⟨hread.sound hts, ih (hts.of_suffix hread.suffix)⟩
  | unexpected ts what left hne hr ih =>
    have he := statement_ensures (skipSeparators ts)
    rw [hr] at he
    rw [readProgram_unexpected hne hr]
    refine ih (h.of_suffix ?_)
    exact ((recover_suffix left).trans he.1).trans (skipSeparators_suffix ts)
  | invalidNumber ts number left hr ih =>
    have he := statement_ensures (skipSeparators ts)
    rw [hr] at he
    rw [readProgram_invalidNumber hr]
    refine ih (h.of_suffix ?_)
    exact (((recover_suffix left).trans (List.suffix_cons number left)).trans he.1.1).trans
      (skipSeparators_suffix ts)
  | malformed ts token hr =>
    rw [readProgram_malformed hr]
    intro e he
    cases he

end Parser

/-- Every statement of a text is well formed. -/
theorem statements_areWellFormed (s : Bytes) :
    ∀ e ∈ (parse (scan s).tokens).statements, e.isWellFormed = true := by
  rw [parse_scan]
  exact readProgram_isWellFormed _ _ fun t ht => bodyTokens_spells ht

end ExprLang
