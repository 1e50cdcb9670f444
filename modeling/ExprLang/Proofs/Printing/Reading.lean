import ExprLang.Proofs.Parsing.Program
import ExprLang.Proofs.Printing.Pieces

/-!
# Reading a printed expression

The parser reads the tokens of a printed expression and stops right behind them, provided that what
follows is not part of an expression. An operand is closed or in parentheses, so nothing behind it
can be swallowed; the other expressions are followed by something that ends every expression.
-/

namespace ExprLang

open ExprLang.Parser

/-! ## Tokens without lines -/

/-- The token of a piece, its line left open. -/
def Piece.bareToken? : Piece → Option Token
  | .token kind lexeme payload => some ⟨kind, lexeme, payload, 0⟩
  | _ => none

def bareTokens (ps : List Piece) : List Token := ps.filterMap Piece.bareToken?

theorem bareTokens_append (ps qs : List Piece) :
    bareTokens (ps ++ qs) = bareTokens ps ++ bareTokens qs := List.filterMap_append

/-- The token of a symbol or a keyword. -/
def markToken (kind : TokenKind) (s : String) : Token := ⟨kind, bytes s, none, 0⟩

def nameToken (name : Bytes) : Token := ⟨.identifier, name, none, 0⟩

theorem bareTokens_mark (kind : TokenKind) (s : String) (ps : List Piece) :
    bareTokens (.mark kind s :: ps) = markToken kind s :: bareTokens ps := rfl

theorem bareTokens_intercalate (sep ps : List Piece) (pss : List (List Piece)) :
    bareTokens (sep.intercalate (ps :: pss)) =
      bareTokens ps ++ pss.flatMap fun qs => bareTokens sep ++ bareTokens qs := by
  induction pss generalizing ps with
  | nil => simp
  | cons qs pss ih =>
    rw [List.intercalate_cons_cons, bareTokens_append, bareTokens_append, ih, List.flatMap_cons,
      List.append_assoc, List.append_assoc]

theorem bareTokens_tokensFrom (line : Int) (ps : List Piece) :
    (Piece.tokensFrom line ps).map (Token.mapLine fun _ => 0) = bareTokens ps := by
  induction ps generalizing line with
  | nil => rfl
  | cons p ps ih =>
    have h := ih (line + Text.newlines p.text)
    simp only [Piece.tokensFrom, bareTokens, Piece.locate, List.filterMap_cons] at h ⊢
    cases p with
    | token kind lexeme payload => simpa [Piece.token?, Piece.bareToken?, Token.mapLine] using h
    | blank b => simpa [Piece.token?, Piece.bareToken?] using h
    | stray c text => simpa [Piece.token?, Piece.bareToken?] using h
    | unclosed text => simpa [Piece.token?, Piece.bareToken?] using h

namespace Parser

theorem ok_bind {α β : Type} (a : α) (f : α → Except Fault β) : (Except.ok a >>= f) = f a := rfl

/-! ## What may follow -/

/-- Tokens that neither extend an operand before them nor make a name an assignment. -/
def Apart (rest : List Token) : Prop :=
  ∀ t us, rest = t :: us →
    t.kind ≠ .leftParen ∧ t.kind ≠ .assign ∧ BinaryOp.ofKind? t.kind = none

/-- Tokens that end every expression before them. -/
def Ends (rest : List Token) : Prop :=
  Apart rest ∧ ∀ u vs, skipNewlines rest = u :: vs → u.kind ≠ .elseWord

theorem apart_cons {t : Token} (us : List Token) (hp : t.kind ≠ .leftParen)
    (ha : t.kind ≠ .assign) (ho : BinaryOp.ofKind? t.kind = none) : Apart (t :: us) := by
  intro u vs h
  obtain ⟨rfl, rfl⟩ := List.cons.inj h
  exact ⟨hp, ha, ho⟩

theorem ends_nil : Ends [] := by
  constructor
  · intro t us h
    cases h
  · intro u vs h
    cases h

theorem ends_cons {t : Token} (us : List Token) (hp : t.kind ≠ .leftParen) (ha : t.kind ≠ .assign)
    (ho : BinaryOp.ofKind? t.kind = none) (hn : t.kind ≠ .newline) (he : t.kind ≠ .elseWord) :
    Ends (t :: us) := by
  refine ⟨apart_cons us hp ha ho, fun u vs h => ?_⟩
  have hs : skipNewlines (t :: us) = t :: us := by simp [skipNewlines, hn]
  rw [hs] at h
  rw [← (List.cons.inj h).1]
  exact he

theorem readCalls_apart {rest : List Token} (h : Apart rest) (v : Expr) :
    readCalls v rest = .ok ⟨v, rest⟩ := by
  cases rest with
  | nil => exact readCalls_nil v
  | cons t us => rw [readCalls_cons, if_neg (h t us rfl).1]

theorem operator?_eq_none {k : TokenKind} (l : Level) (h : BinaryOp.ofKind? k = none) :
    l.operator? k = none := by
  simp [Level.operator?, h]

theorem readChain_quiet {l : Level} {rest : List Token} (v : Expr)
    (h : ∀ t us, rest = t :: us → l.operator? t.kind = none) :
    readChain l v rest = .ok ⟨v, rest⟩ := by
  cases rest with
  | nil => exact readChain_nil l v
  | cons t us => rw [readChain_cons, h t us rfl]

/-- No operator of the given level or a tighter one comes next. -/
def Quiet (l : Option Level) (rest : List Token) : Prop :=
  ∀ t us, rest = t :: us → ∀ m : Level, rank (some m) ≤ rank l → m.operator? t.kind = none

theorem quiet_of_apart {rest : List Token} (h : Apart rest) (l : Option Level) : Quiet l rest := by
  intro t us ht m _
  exact operator?_eq_none m (h t us ht).2.2

/-- An operand is read at every level whose operators do not follow. -/
theorem readOperand_of_unary {l : Option Level} {ts rest : List Token} {v : Expr}
    (h : readUnary (skipNewlines ts) = .ok ⟨v, rest⟩) (hq : Quiet l rest) :
    readOperand l ts = .ok ⟨v, rest⟩ := by
  induction hr : rank l generalizing l with
  | zero => have hp := rank_pos l; omega
  | succ n ih =>
    cases l with
    | none => rw [readOperand_none, h]
    | some l =>
      have ht := rank_tighter l
      have hq' : Quiet l.tighter rest := fun t us hc m hm => hq t us hc m (by omega)
      rw [readOperand_some, ih hq' (by omega), ok_bind]
      exact readChain_quiet v fun t us hc => hq t us hc l (Nat.le_refl _)

/-- What is read at some level is read at the loosest one if no operator follows. -/
theorem readOperand_or {l : Option Level} {ts rest : List Token} {v : Expr}
    (h : readOperand l ts = .ok ⟨v, rest⟩) (ha : Apart rest) :
    readOperand (some .or) ts = .ok ⟨v, rest⟩ := by
  have step : ∀ m : Level, readOperand m.tighter ts = .ok ⟨v, rest⟩ →
      readOperand (some m) ts = .ok ⟨v, rest⟩ := by
    intro m hm
    rw [readOperand_some, hm, ok_bind]
    exact readChain_quiet v fun t us ht => operator?_eq_none m (ha t us ht).2.2
  cases l with
  | none =>
    exact step .or <| step .and <| step .equality <| step .comparison <| step .range <|
      step .additive <| step .multiplicative h
  | some l =>
    cases l with
    | or => exact h
    | and => exact step .or h
    | equality => exact step .or <| step .and h
    | comparison => exact step .or <| step .and <| step .equality h
    | range => exact step .or <| step .and <| step .equality <| step .comparison h
    | additive =>
      exact step .or <| step .and <| step .equality <| step .comparison <| step .range h
    | multiplicative =>
      exact step .or <| step .and <| step .equality <| step .comparison <| step .range <|
        step .additive h

/-! ## Operands and branches -/

/-- Kinds of tokens that an expression can start with. -/
def opens : TokenKind → Bool
  | .leftParen | .leftBrace | .bar | .minus | .bang | .identifier | .int | .float | .string
  | .ifWord | .forWord | .trueWord | .falseWord => true
  | _ => false

/-- Tokens that start an expression. -/
def Opens (ts : List Token) : Prop := ∃ t us, ts = t :: us ∧ opens t.kind = true

theorem Opens.append {ts : List Token} (h : Opens ts) (us : List Token) : Opens (ts ++ us) := by
  obtain ⟨t, vs, rfl, ht⟩ := h
  exact ⟨t, vs ++ us, rfl, ht⟩

theorem ne_of_opens {k k' : TokenKind} (h : opens k = true) (h' : opens k' = false) : k ≠ k' := by
  rintro rfl
  rw [h] at h'
  cases h'

theorem Opens.skipNewlines {ts : List Token} (h : Opens ts) : skipNewlines ts = ts := by
  obtain ⟨t, us, rfl, ht⟩ := h
  have hn := ne_of_opens ht (by rfl : opens .newline = false)
  simp [Parser.skipNewlines, hn]

theorem Opens.skipSeparators {ts : List Token} (h : Opens ts) : skipSeparators ts = ts := by
  obtain ⟨t, us, rfl, ht⟩ := h
  have hn := ne_of_opens ht (by rfl : opens .newline = false)
  have hs := ne_of_opens ht (by rfl : opens .semicolon = false)
  simp [Parser.skipSeparators, TokenKind.isSeparator, hn, hs]

/-- No assignment sign comes next. -/
def NoAssign (rest : List Token) : Prop := ∀ t us, rest = t :: us → t.kind ≠ .assign

theorem Apart.noAssign {rest : List Token} (h : Apart rest) : NoAssign rest :=
  fun t us ht => (h t us ht).2.1

theorem noAssign_cons {t : Token} (us : List Token) (h : t.kind ≠ .assign) :
    NoAssign (t :: us) := by
  intro u vs heq
  rw [← (List.cons.inj heq).1]
  exact h

/-- What the printed expression is read as, without lines. -/
def normal (e : Expr) : Expr := e.norm.unlined

def groupedNormal (e : Expr) : Expr := (e.grouped e.norm).unlined

def bracedNormal (e : Expr) : Expr := (e.braced e.norm).unlined

/-- How the tokens of an expression are read: whole if the expression ends with them, and as the
start of a chain of calls if it is closed. -/
structure ReadsBack (e : Expr) : Prop where
  opens : Opens (bareTokens e.pieces)
  whole : ∀ rest, Ends rest →
    readOperand (some .or) (bareTokens e.pieces ++ rest) = .ok ⟨normal e, rest⟩
  closed : e.isClosed = true → ∀ rest, NoAssign rest →
    readUnary (bareTokens e.pieces ++ rest) = readCalls (normal e) rest

theorem readUnary_primary {t : Token} {ts rest : List Token} {v : Expr}
    (hk : UnaryOp.ofKind? t.kind = none) (h : readPrimary t ts = .ok ⟨v, rest⟩) :
    readUnary (t :: ts) = readCalls v rest := by
  rw [readUnary_cons, hk]
  simp only
  rw [h, ok_bind]

/-- An expression read as a unary one is read whole. -/
theorem whole_of_unary {ts rest : List Token} {v : Expr} (ho : Opens ts)
    (h : readUnary ts = .ok ⟨v, rest⟩) (ha : Apart rest) :
    readOperand (some .or) ts = .ok ⟨v, rest⟩ := by
  refine readOperand_of_unary ?_ (quiet_of_apart ha _)
  rw [ho.skipNewlines, h]

theorem ReadsBack.of_closed {e : Expr} (ho : Opens (bareTokens e.pieces))
    (h : ∀ rest, NoAssign rest →
      readUnary (bareTokens e.pieces ++ rest) = readCalls (normal e) rest) : ReadsBack e where
  opens := ho
  whole rest hr := by
    refine whole_of_unary (ho.append rest) ?_ hr.1
    rw [h rest hr.1.noAssign, readCalls_apart hr.1]
  closed _ := h

theorem ReadsBack.of_open {e : Expr} (hc : e.isClosed = false) (ho : Opens (bareTokens e.pieces))
    (h : ∀ rest, Ends rest → readUnary (bareTokens e.pieces ++ rest) = .ok ⟨normal e, rest⟩) :
    ReadsBack e where
  opens := ho
  whole rest hr := whole_of_unary (ho.append rest) (h rest hr) hr.1
  closed hc' := by
    rw [hc] at hc'
    cases hc'

/-- An expression in parentheses. -/
theorem readPrimary_group {ts : List Token} {v : Expr}
    (h : ∀ rest, Ends rest → readOperand (some .or) (ts ++ rest) = .ok ⟨v, rest⟩)
    (rest : List Token) :
    readPrimary (markToken .leftParen "(") (ts ++ markToken .rightParen ")" :: rest) =
      .ok ⟨.grouping v, rest⟩ := by
  have hend : Ends (markToken .rightParen ")" :: rest) :=
    ends_cons rest (by decide) (by decide) rfl (by decide) (by decide)
  rw [readPrimary_paren rfl, h _ hend, ok_bind]
  rfl

/-- Statements in braces. -/
theorem readPrimary_block {ts : List Token} {body : List Expr} {rest : List Token}
    (hs : skipSeparators ts = ts) (h : readBlock ts = .ok ⟨body, rest⟩) :
    readPrimary (markToken .leftBrace "\x7b") ts = .ok ⟨.block 0 body, rest⟩ := by
  rw [readPrimary_brace rfl, hs, h, ok_bind]
  rfl

/-- The statements behind the first one, each behind a semicolon. -/
def moreStatements (es : List Expr) : List Token :=
  es.flatMap fun e => markToken .semicolon ";" :: bareTokens e.pieces

theorem ends_moreStatements (es : List Expr) (rest : List Token) :
    Ends (moreStatements es ++ markToken .rightBrace "\x7d" :: rest) := by
  cases es with
  | nil => exact ends_cons _ (by decide) (by decide) rfl (by decide) (by decide)
  | cons e es => exact ends_cons _ (by decide) (by decide) rfl (by decide) (by decide)

theorem readBlock_statement {e : Expr} (he : ReadsBack e) {tail : List Token} (ht : Ends tail) :
    readBlock (bareTokens e.pieces ++ tail) = (do
      let ⟨es, ts⟩ ← readBlock (skipSeparators tail)
      .ok ⟨normal e :: es, ts⟩) := by
  have hread := he.whole _ ht
  obtain ⟨t, us, hts, hopens⟩ := he.opens
  have hbrace : t.kind ≠ .rightBrace := ne_of_opens hopens rfl
  rw [hts, List.cons_append] at hread ⊢
  rw [readBlock_cons, if_neg hbrace, hread, ok_bind]

theorem readBlock_statements {e : Expr} {es : List Expr} (he : ReadsBack e)
    (hes : ∀ e ∈ es, ReadsBack e) (rest : List Token) :
    readBlock (bareTokens e.pieces ++
        (moreStatements es ++ markToken .rightBrace "\x7d" :: rest)) =
      .ok ⟨normal e :: es.map normal, rest⟩ := by
  rw [readBlock_statement he (ends_moreStatements es rest)]
  induction es generalizing e with
  | nil => rfl
  | cons d es ih =>
    obtain ⟨hd, hes'⟩ := List.forall_mem_cons.mp hes
    have hskip : skipSeparators (moreStatements (d :: es) ++ markToken .rightBrace "\x7d" :: rest) =
        bareTokens d.pieces ++ (moreStatements es ++ markToken .rightBrace "\x7d" :: rest) := by
      have ho := hd.opens.append (moreStatements es ++ markToken .rightBrace "\x7d" :: rest)
      rw [moreStatements, List.flatMap_cons, List.cons_append, List.cons_append, List.append_assoc]
      exact ho.skipSeparators
    rw [hskip, readBlock_statement hd (ends_moreStatements es rest), ih hd hes']
    rfl

/-- The arguments behind the first one, each behind a comma. -/
def moreArgumentTokens (es : List Expr) : List Token :=
  es.flatMap fun e => markToken .comma "," :: bareTokens e.pieces

theorem ends_moreArguments (es : List Expr) (rest : List Token) :
    Ends (moreArgumentTokens es ++ markToken .rightParen ")" :: rest) := by
  cases es with
  | nil => exact ends_cons _ (by decide) (by decide) rfl (by decide) (by decide)
  | cons e es => exact ends_cons _ (by decide) (by decide) rfl (by decide) (by decide)

theorem readMoreArguments_tokens {es : List Expr} (hes : ∀ e ∈ es, ReadsBack e)
    (rest : List Token) :
    readMoreArguments (skipNewlines
        (moreArgumentTokens es ++ markToken .rightParen ")" :: rest)) =
      .ok ⟨es.map normal, rest⟩ := by
  induction es with
  | nil => exact readMoreArguments_cons _ _
  | cons e es ih =>
    obtain ⟨he, hes'⟩ := List.forall_mem_cons.mp hes
    have htokens : skipNewlines
        (moreArgumentTokens (e :: es) ++ markToken .rightParen ")" :: rest) =
        markToken .comma "," :: (bareTokens e.pieces ++
          (moreArgumentTokens es ++ markToken .rightParen ")" :: rest)) := by
      rw [moreArgumentTokens, List.flatMap_cons, List.cons_append, List.cons_append,
        List.append_assoc]
      rfl
    have hcomma : (markToken .comma ",").kind = .comma := rfl
    rw [htokens, readMoreArguments_cons, if_pos hcomma, he.whole _ (ends_moreArguments es rest),
      ok_bind]
    dsimp only
    rw [ih hes', ok_bind]
    rfl

theorem readArguments_tokens {es : List Expr} (hes : ∀ e ∈ es, ReadsBack e) (rest : List Token) :
    readArguments (skipNewlines
        (bareTokens ([.mark .comma ",", .space].intercalate (es.map Expr.pieces)) ++
          markToken .rightParen ")" :: rest)) = .ok ⟨es.map normal, rest⟩ := by
  cases es with
  | nil => exact readArguments_cons _ _
  | cons e es =>
    obtain ⟨he, hes'⟩ := List.forall_mem_cons.mp hes
    have htokens : bareTokens ([.mark .comma ",", .space].intercalate
        ((e :: es).map Expr.pieces)) = bareTokens e.pieces ++ moreArgumentTokens es := by
      rw [List.map_cons, bareTokens_intercalate, List.flatMap_map]
      rfl
    have hread := he.whole _ (ends_moreArguments es rest)
    rw [htokens, List.append_assoc, (he.opens.append _).skipNewlines]
    obtain ⟨t, us, hts, hopens⟩ := he.opens
    have hparen : t.kind ≠ .rightParen := ne_of_opens hopens rfl
    rw [hts, List.cons_append] at hread ⊢
    rw [readArguments_cons, if_neg hparen, hread, ok_bind]
    dsimp only
    rw [readMoreArguments_tokens hes' rest, ok_bind]
    rfl

theorem parameters_tokens (params : List Bytes) (rest : List Token) :
    parameters (bareTokens ([.space].intercalate (params.map fun name => [.named name])) ++
      markToken .bar "|" :: rest) = .ok ⟨params, rest⟩ := by
  have hnames : ∀ names : List Bytes,
      parameters (names.map nameToken ++ markToken .bar "|" :: rest) = .ok ⟨names, rest⟩ := by
    intro names
    induction names with
    | nil => rfl
    | cons name names ih =>
      have hbar : (nameToken name).kind ≠ .bar := by simp [nameToken]
      have hname : (nameToken name).kind = .identifier := rfl
      rw [List.map_cons, List.cons_append, parameters, if_neg hbar, if_pos hname, ih, ok_bind]
      rfl
  cases params with
  | nil => rfl
  | cons name names =>
    have htokens : bareTokens
        ([.space].intercalate ((name :: names).map fun name => [.named name])) =
        (name :: names).map nameToken := by
      rw [List.map_cons, bareTokens_intercalate, List.flatMap_map]
      have hrest : names.flatMap (fun name => bareTokens [.space] ++ bareTokens [.named name]) =
          names.map nameToken := List.map_eq_flatMap.symm
      rw [hrest]
      rfl
    rw [htokens]
    exact hnames (name :: names)

end Parser

end ExprLang
