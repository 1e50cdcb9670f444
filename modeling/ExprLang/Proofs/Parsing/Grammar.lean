import ExprLang.Proofs.Parsing.Leaves
import ExprLang.Proofs.Parsing.Program
import ExprLang.Token.Scan

/-!
# The parser follows the grammar

Read from left to right, the leaves of the trees that a parse without errors returns are the tokens
it was given, up to the separators: none is lost, doubled or moved. And the trees are ordered:
operators of one level form a chain to the left, the right operand binds more tightly, and only an
expression that ends by itself is called. Such an expression is never followed by an argument list
that it has not read, which is why nothing else can be called.
-/

namespace ExprLang

namespace Parser

/-! ## Promises -/

/-- An expression read from `ts` that binds at least as tightly as `height`. -/
structure Reads (height : Nat) (ts : List Token) (e : Expr) (rest : List Token) : Prop where
  spans : Spans e.leaves ts rest
  ordered : e.isOrdered = true
  height_le : height ≤ e.height
  uncalled : Uncalled rest

/-- An expression that goes on from `start` with tokens of `ts`. -/
structure GoesOn (height : Nat) (start : Expr) (ts : List Token) (e : Expr) (rest : List Token) :
    Prop where
  spans : ∃ more, e.leaves = start.leaves ++ more ∧ Spans more ts rest
  ordered : e.isOrdered = true
  height_le : height ≤ e.height
  uncalled : Uncalled rest

theorem GoesOn.reads {height : Nat} {start e : Expr} {ts us rest : List Token}
    (h : GoesOn height start us e rest) (hs : Spans start.leaves ts us) :
    Reads height ts e rest := by
  obtain ⟨more, hl, hm⟩ := h.spans
  refine ⟨?_, h.ordered, h.height_le, h.uncalled⟩
  rw [hl]
  exact hs.append hm

/-- An expression that starts with one token. It is closed, or nothing calls it. -/
structure ReadsPrimary (ts : List Token) (e : Expr) (rest : List Token) : Prop where
  spans : Spans e.leaves ts rest
  ordered : e.isOrdered = true
  height_eq : e.height = 8
  callable : e.isClosed = true ∨ Uncalled rest

/-- Expressions with a closing bracket behind them. -/
structure ReadsList (leaves : List Expr → List Leaf) (close : TokenKind) (ts : List Token)
    (es : List Expr) (rest : List Token) : Prop where
  spans : Spans (leaves es ++ [.mark close none]) ts rest
  ordered : Expr.areOrdered es = true

structure ReadsBranches (ts : List Token) (b : Branches) (rest : List Token) : Prop where
  spans : Spans b.leaves ts rest
  ordered : b.isOrdered = true
  uncalled : Uncalled rest

/-- What a phrase is read as, if what it goes on from can stand there. -/
def Phrase.Follows : (p : Phrase) → List Token → p.Value → List Token → Prop
  | .operand l, ts, e, rest => Reads (heightOf l) ts e rest
  | .chain l left, ts, e, rest =>
    left.isOrdered = true → l.height ≤ left.height → Uncalled ts → GoesOn l.height left ts e rest
  | .unary, ts, e, rest => Reads 7 ts e rest
  | .calls callee, ts, e, rest =>
    callee.isOrdered = true → callee.height = 8 → (callee.isClosed = true ∨ Uncalled ts) →
      GoesOn 7 callee ts e rest
  | .arguments, ts, es, rest => ReadsList Expr.argumentLeaves .rightParen ts es rest
  | .moreArguments, ts, es, rest => ReadsList Expr.moreArgumentLeaves .rightParen ts es rest
  | .primary, ts, e, rest => ReadsPrimary ts e rest
  | .parameters, ts, names, rest =>
    Spans (names.map (Leaf.name · none) ++ [.mark .bar none]) ts rest
  | .branches, ts, b, rest => Uncalled ts → ReadsBranches ts b rest
  | .block, ts, es, rest => ReadsList Expr.leavesAll .rightBrace ts es rest

/-! ## Operators and calls -/

theorem goesOn_refl {height : Nat} {e : Expr} {ts : List Token} (ho : e.isOrdered = true)
    (hh : height ≤ e.height) (hu : Uncalled ts) : GoesOn height e ts e ts :=
  ⟨⟨[], (List.append_nil _).symm, spans_nil ts⟩, ho, hh, hu⟩

theorem goesOn_operator {op : BinaryOp} {t : Token} {ts us rest : List Token}
    {left right e : Expr} (hkind : t.kind = op.kind) (hleft : left.isOrdered = true)
    (hh : op.level.height ≤ left.height) (hright : Reads (heightOf op.level.right) ts right us)
    (hmore : (Expr.binary left op t.lexeme t.line right).isOrdered = true →
      GoesOn op.level.height (.binary left op t.lexeme t.line right) us e rest) :
    GoesOn op.level.height left (t :: ts) e rest := by
  have hlt := Nat.lt_of_lt_of_le (height_lt_right op.level) hright.height_le
  have hcomparison : op.level = .comparison → Level.additive.height ≤ right.height :=
    fun hc => Nat.le_trans (additive_le_right hc) hright.height_le
  have h := hmore (isOrdered_binary t.lexeme t.line hh hlt hcomparison hleft hright.ordered)
  obtain ⟨more, hl, hm⟩ := h.spans
  refine ⟨⟨.operator op.kind t.lexeme t.line :: (right.leaves ++ more), ?_, ?_⟩, h.ordered,
    h.height_le, h.uncalled⟩
  · simp only [hl, Expr.leaves, List.append_assoc, List.cons_append]
  · exact (hright.spans.append hm).cons (by rw [hkind]; exact isSeparator_binary op)
      (by simp [Leaf.fits, hkind])

theorem reads_sign {op : UnaryOp} {t : Token} {ts rest : List Token} {e : Expr}
    (hkind : t.kind = op.kind) (h : Reads 7 (skipNewlines ts) e rest) :
    Reads 7 (t :: ts) (.unary op t.lexeme t.line e) rest := by
  refine ⟨?_, ?_, Nat.le_refl _, h.uncalled⟩
  · exact (spans_skipNewlines h.spans).cons (by rw [hkind]; exact isSeparator_unary op)
      (by simp [Leaf.fits, hkind])
  · simp [Expr.isOrdered, h.height_le, h.ordered]

theorem goesOn_call {callee e : Expr} {t : Token} {ts us rest : List Token} {args : List Expr}
    (hk : t.kind = .leftParen) (hcallee : callee.isOrdered = true)
    (hclosed : callee.isClosed = true ∨ Uncalled (t :: ts))
    (hargs : ReadsList Expr.argumentLeaves .rightParen (skipNewlines ts) args us)
    (hmore : (Expr.call callee t.line args).isOrdered = true →
      GoesOn 7 (.call callee t.line args) us e rest) : GoesOn 7 callee (t :: ts) e rest := by
  have hends : callee.isClosed = true := hclosed.resolve_right fun hu => hu t ts rfl hk
  have h := hmore (by simp only [Expr.isOrdered, hends, hcallee, hargs.ordered, Bool.and_self])
  obtain ⟨more, hl, hm⟩ := h.spans
  refine ⟨⟨.mark .leftParen (some t.line) ::
    (Expr.argumentLeaves args ++ [.mark .rightParen none] ++ more), ?_, ?_⟩, h.ordered,
    h.height_le, h.uncalled⟩
  · simp only [hl, Expr.leaves, List.append_assoc, List.cons_append]
  · exact ((spans_skipNewlines hargs.spans).append hm).cons (by rw [hk]; rfl) (fits_markAt hk)

/-! ## Lists -/

/-- A closing bracket ends a list. -/
theorem readsList_nil {leaves : List Expr → List Leaf} {close : TokenKind} {t : Token}
    (ts : List Token) (hnil : leaves [] = []) (hs : close.isSeparator = false)
    (hk : t.kind = close) : ReadsList leaves close (t :: ts) [] ts := by
  refine ⟨?_, rfl⟩
  rw [hnil]
  exact (spans_nil ts).cons (by rw [hk]; exact hs) (fits_mark hk)

theorem readsList_cons {leaves more : List Expr → List Leaf} {close : TokenKind} {e : Expr}
    {es : List Expr} {ts us rest : List Token} (hcons : leaves (e :: es) = e.leaves ++ more es)
    (he : Reads 0 ts e us) (hes : Spans (more es ++ [.mark close none]) us rest)
    (ho : Expr.areOrdered es = true) : ReadsList leaves close ts (e :: es) rest := by
  refine ⟨?_, by simp only [Expr.areOrdered, he.ordered, ho, Bool.and_self]⟩
  rw [hcons, List.append_assoc]
  exact he.spans.append hes

theorem readsList_comma {t : Token} {es : List Expr} {ts rest : List Token} (hk : t.kind = .comma)
    (h : ReadsList Expr.argumentLeaves .rightParen ts es rest) (hne : es ≠ []) :
    ReadsList Expr.moreArgumentLeaves .rightParen (t :: ts) es rest := by
  obtain ⟨e, es, rfl⟩ := List.exists_cons_of_ne_nil hne
  exact ⟨h.spans.cons (by rw [hk]; rfl) (fits_mark hk), h.ordered⟩

/-! ## Constructs -/

theorem readsPrimary_literal {t : Token} {ts : List Token} {value : Literal}
    (h : t.literal? = some value) : ReadsPrimary (t :: ts) (.literal value) ts := by
  have hkinds : ∀ kind ∈ TokenKind.literals, kind.isSeparator = false := by decide
  have hs := hkinds _ (Token.kind_mem_of_literal? h)
  exact ⟨(spans_nil ts).cons hs (by simp [Leaf.fits, h]), rfl, rfl, Or.inl rfl⟩

theorem readsPrimary_reference {t : Token} (ts : List Token) (hk : t.kind = .identifier) :
    ReadsPrimary (t :: ts) (.variable t.lexeme t.line) ts :=
  ⟨(spans_nil ts).cons (by rw [hk]; rfl) (fits_nameAt hk), rfl, rfl, Or.inl rfl⟩

theorem readsPrimary_assignment {t sign : Token} {ts rest : List Token} {value : Expr}
    (hk : t.kind = .identifier) (hsign : sign.kind = .assign) (h : Reads 0 ts value rest) :
    ReadsPrimary (t :: sign :: ts) (.assign t.lexeme t.line value) rest := by
  refine ⟨?_, h.ordered, rfl, Or.inr h.uncalled⟩
  exact (h.spans.cons (by rw [hsign]; rfl) (fits_mark hsign)).cons (by rw [hk]; rfl)
    (fits_nameAt hk)

theorem readsPrimary_grouping {t close : Token} {ts us rest : List Token} {inner : Expr}
    (hk : t.kind = .leftParen) (h : Reads 0 ts inner us) (hclose : close.kind = .rightParen)
    (hrest : skipNewlines us = close :: rest) : ReadsPrimary (t :: ts) (.grouping inner) rest := by
  refine ⟨?_, h.ordered, rfl, Or.inl rfl⟩
  have hend : Spans [.mark .rightParen none] us rest := by
    apply spans_skipNewlines
    rw [hrest]
    exact (spans_nil rest).cons (by rw [hclose]; rfl) (fits_mark hclose)
  exact (h.spans.append hend).cons (by rw [hk]; rfl) (fits_mark hk)

theorem readsPrimary_function {t : Token} {ts us rest : List Token} {params : List Bytes}
    {body : Expr} (hk : t.kind = .bar)
    (hparams : Spans (params.map (Leaf.name · none) ++ [.mark .bar none]) ts us)
    (hbody : Reads 0 us body rest) :
    ReadsPrimary (t :: ts) (.function t.line params body) rest := by
  refine ⟨?_, hbody.ordered, rfl, Or.inr hbody.uncalled⟩
  have hparts := hparams.append hbody.spans
  rw [List.append_assoc] at hparts
  exact hparts.cons (by rw [hk]; rfl) (fits_markAt hk)

theorem readsPrimary_loop {t name sign : Token} {ts us rest : List Token} {items body : Expr}
    (hk : t.kind = .forWord) (hname : name.kind = .identifier) (hsign : sign.kind = .assign)
    (hitems : Reads 0 ts items us) (hbody : Reads 0 us body rest) :
    ReadsPrimary (t :: name :: sign :: ts) (.each t.line name.lexeme items body) rest := by
  refine ⟨?_, by simp only [Expr.isOrdered, hitems.ordered, hbody.ordered, Bool.and_self], rfl,
    Or.inr hbody.uncalled⟩
  have hparts := (hitems.spans.append hbody.spans).cons (by rw [hsign]; rfl) (fits_mark hsign)
  exact (hparts.cons (by rw [hname]; rfl) (fits_name hname)).cons (by rw [hk]; rfl)
    (fits_markAt hk)

theorem readsPrimary_conditional {t : Token} {ts us vs rest : List Token} {test yes : Expr}
    {no : Branches} (hk : t.kind = .ifWord) (htest : Reads 0 ts test us)
    (hyes : Reads 0 us yes vs) (hno : ReadsBranches vs no rest) :
    ReadsPrimary (t :: ts) (.cond t.line test yes no) rest := by
  refine ⟨?_, by simp only [Expr.isOrdered, htest.ordered, hyes.ordered, hno.ordered,
    Bool.and_self], rfl, Or.inr hno.uncalled⟩
  exact (htest.spans.append (hyes.spans.append hno.spans)).cons (by rw [hk]; rfl) (fits_markAt hk)

/-- The line breaks before `else` are read with it. -/
theorem spans_else {t : Token} {ts us rest : List Token} {leaves : List Leaf}
    (hts : skipNewlines ts = t :: us) (hk : t.kind = .elseWord) (h : Spans leaves us rest) :
    Spans (.mark .elseWord none :: leaves) ts rest := by
  apply spans_skipNewlines
  rw [hts]
  exact h.cons (by rw [hk]; rfl) (fits_mark hk)

theorem readsBranches_elseIf {t u : Token} {ts us vs ws rest : List Token} {test yes : Expr}
    {no : Branches} (hts : skipNewlines ts = t :: u :: us) (hk : t.kind = .elseWord)
    (hif : u.kind = .ifWord) (htest : Reads 0 us test vs) (hyes : Reads 0 vs yes ws)
    (hno : ReadsBranches ws no rest) : ReadsBranches ts (.elseIf test yes no) rest := by
  refine ⟨spans_else hts hk ?_, by simp only [Branches.isOrdered, htest.ordered, hyes.ordered,
    hno.ordered, Bool.and_self], hno.uncalled⟩
  exact (htest.spans.append (hyes.spans.append hno.spans)).cons (by rw [hif]; rfl) (fits_mark hif)

/-! ## Phrases -/

/-- What can be derived follows the grammar. -/
theorem Derives.follows {p : Phrase} {ts rest : List Token} {v : p.Value}
    (h : Derives p ts v rest) : p.Follows ts v rest := by
  induction h with
  | unaryOperand _ ih => exact ⟨spans_skipNewlines ih.spans, ih.ordered, ih.height_le, ih.uncalled⟩
  | @level l ts us rest left e _ _ hfirst hmore =>
    have hfirst : Reads (heightOf l.tighter) ts left us := hfirst
    have hle := hfirst.height_le
    rw [heightOf_tighter] at hle
    exact (hmore hfirst.ordered (by omega) hfirst.uncalled).reads hfirst.spans
  | chainEnd _ => exact goesOn_refl
  | operator hop _ _ hsecond hmore =>
    obtain ⟨rfl, hkind⟩ := operator?_eq_some hop
    intro ho hh _
    exact goesOn_operator hkind ho hh hsecond
      fun hnode => hmore hnode (Nat.le_refl _) hsecond.uncalled
  | sign hop _ ih => exact reads_sign (ofKind?_eq_some hop) ih
  | unsigned _ _ _ hfirst hmore =>
    exact (hmore hfirst.ordered hfirst.height_eq hfirst.callable).reads hfirst.spans
  | callsEnd hend =>
    intro ho hh _
    exact goesOn_refl ho (by omega) (uncalled_of_head hend)
  | call hk _ _ hlist hmore =>
    intro ho _ hclosed
    exact goesOn_call hk ho hclosed hlist fun hnode => hmore hnode rfl (Or.inl rfl)
  | noArguments hk | argumentsEnd hk | blockEnd hk => exact readsList_nil _ rfl rfl hk
  | firstArgument _ _ _ hfirst hmore =>
    exact readsList_cons rfl hfirst (spans_skipNewlines hmore.spans) hmore.ordered
  | nextArgument hk _ _ hfirst hmore =>
    refine readsList_comma hk ?_ (List.cons_ne_nil _ _)
    exact readsList_cons rfl hfirst (spans_skipNewlines hmore.spans) hmore.ordered
  | statement _ _ _ hfirst hmore =>
    exact readsList_cons rfl hfirst (spans_skipSeparators hmore.spans) hmore.ordered
  | literal ht => exact readsPrimary_literal ht
  | reference hk => exact readsPrimary_reference _ hk
  | assignment hk hsign _ ih => exact readsPrimary_assignment hk hsign ih
  | grouping hk _ hclose hrest ih => exact readsPrimary_grouping hk ih hclose hrest
  | braces hk _ ih =>
    refine ⟨?_, ih.ordered, rfl, Or.inl rfl⟩
    exact (spans_skipSeparators ih.spans).cons (by rw [hk]; rfl) (fits_markAt hk)
  | function hk _ _ hlist ih => exact readsPrimary_function hk hlist ih
  | loop hk hname hsign _ _ hfirst hsecond =>
    exact readsPrimary_loop hk hname hsign hfirst hsecond
  | conditional hk _ _ _ hfirst hsecond hmore =>
    exact readsPrimary_conditional hk hfirst hsecond (hmore hsecond.uncalled)
  | parametersEnd hk => exact (spans_nil _).cons (by rw [hk]; rfl) (fits_mark hk)
  | parameter hk _ ih => exact ih.cons (by rw [hk]; rfl) (fits_name hk)
  | noElse => exact fun hu => ⟨spans_nil _, rfl, hu⟩
  | otherwise hts hk _ _ ih => exact fun _ => ⟨spans_else hts hk ih.spans, ih.ordered, ih.uncalled⟩
  | elseIf hts hk hif _ _ _ hfirst hsecond hmore =>
    exact fun _ => readsBranches_elseIf hts hk hif hfirst hsecond (hmore hsecond.uncalled)

/-! ## Programs -/

theorem statement_reads {ts rest : List Token} {e : Expr} (h : statement ts = .ok ⟨e, rest⟩) :
    Reads 0 ts e rest :=
  (derives_of_statement h).follows

theorem readProgram_spans (stop : Token) (ts : List Token)
    (herr : (readProgram stop ts).errors = []) (hmal : (readProgram stop ts).malformed = none) :
    Spans ((readProgram stop ts).statements.flatMap Expr.leaves) ts [] := by
  induction ts using readProgram_induct with
  | blank ts hd =>
    rw [readProgram_nil hd]
    apply spans_skipSeparators
    rw [hd]
    exact spans_nil []
  | read ts e left hr ih =>
    rw [readProgram_ok hr] at herr hmal ⊢
    exact (spans_skipSeparators (statement_reads hr).spans).append (ih herr hmal)
  | unexpected ts what left hne hr ih =>
    rw [readProgram_unexpected hne hr] at herr
    cases herr
  | invalidNumber ts number left hr ih =>
    rw [readProgram_invalidNumber hr] at herr
    cases herr
  | malformed ts token hr =>
    rw [readProgram_malformed hr] at hmal
    cases hmal

/-- Statements between errors are ordered too. -/
theorem readProgram_ordered (stop : Token) (ts : List Token) :
    ∀ e ∈ (readProgram stop ts).statements, e.isOrdered = true := by
  induction ts using readProgram_induct with
  | blank ts hd =>
    rw [readProgram_nil hd]
    intro e he
    cases he
  | read ts e left hr ih =>
    rw [readProgram_ok hr]
    exact List.forall_mem_cons.mpr ⟨(statement_reads hr).ordered, ih⟩
  | unexpected ts what left hne hr ih =>
    rw [readProgram_unexpected hne hr]
    exact ih
  | invalidNumber ts number left hr ih =>
    rw [readProgram_invalidNumber hr]
    exact ih
  | malformed ts token hr =>
    rw [readProgram_malformed hr]
    intro e he
    cases he

end Parser

open ExprLang.Parser

/-- If a parse reports no error, the leaves of its trees are the tokens before the end, up to
separators, and the trees respect the levels of the operators. -/
theorem parse_follows_grammar (ts : List Token) (herr : (parse ts).errors = [])
    (hmal : (parse ts).malformed = none) :
    List.Forall₂ (fun leaf t => leaf.fits t = true)
        ((parse ts).statements.flatMap Expr.leaves)
        ((ts.takeWhile fun t => t.kind != .eof).filter fun t => !t.kind.isSeparator) ∧
      ∀ e ∈ (parse ts).statements, e.isOrdered = true := by
  refine ⟨?_, readProgram_ordered _ _⟩
  obtain ⟨used, hused, hfits⟩ := readProgram_spans _ _ herr hmal
  rw [List.append_nil] at hused
  rw [hused]
  exact hfits

/-- All kinds of nodes, with line breaks and semicolons between and inside them. -/
def everyNode : Bytes :=
  bytes "x := a < 1 to 3 or -f(1,\n \"s\")(2.5); \n" ++
    bytes "for i := (1 to 3) \x7b\n if i !b\nelse if c d = e else |p q| p * 2 \x7d"

theorem parse_follows_grammar_everyNode :
    let ts := (scan everyNode).tokens
    (parse ts).errors = [] ∧ (parse ts).malformed = none ∧
      List.Forall₂ (fun leaf t => leaf.fits t = true)
        ((parse ts).statements.flatMap Expr.leaves)
        ((ts.takeWhile fun t => t.kind != .eof).filter fun t => !t.kind.isSeparator) ∧
      ∀ e ∈ (parse ts).statements, e.isOrdered = true := by
  have herr : (parse (scan everyNode).tokens).errors = [] := by decide +kernel
  have hmal : (parse (scan everyNode).tokens).malformed = none := by decide +kernel
  exact ⟨herr, hmal, parse_follows_grammar _ herr hmal⟩

end ExprLang
