import ExprLang.Expr.Parser

/-!
# The rules of the grammar

Each rule says how a phrase is put together from tokens and from other phrases, with the tokens that
may not follow where a phrase could have gone on. The reading functions return what can be derived
by these rules and nothing else (`statement_iff`), so what holds of everything they return is proved
by induction on a derivation, one case for each rule and without any fuel.
-/

namespace ExprLang

/-- The kinds of tokens that are literals. -/
def TokenKind.literals : List TokenKind := [falseWord, trueWord, int, float, string]

/-- The value of a literal token. -/
def Token.literal? (t : Token) : Option Literal :=
  match t.kind with
  | .falseWord => some (.bool false)
  | .trueWord => some (.bool true)
  | .int => (Number.readInt? t.lexeme).map .int
  | .float => (Number.readFloat? t.lexeme).map .float
  | .string => t.text?.map .string
  | _ => none

theorem Token.kind_mem_of_literal? {t : Token} {value : Literal} (h : t.literal? = some value) :
    t.kind ∈ TokenKind.literals := by
  unfold Token.literal? at h
  cases hk : t.kind <;> simp [hk, TokenKind.literals] at h ⊢

namespace Parser

/-! ## Tokens left -/

/-- A proper suffix. -/
def Shorter (rest ts : List Token) : Prop := rest <:+ ts ∧ rest.length < ts.length

theorem Shorter.of_suffix {rest us ts : List Token} (h : Shorter rest us) (hs : us <:+ ts) :
    Shorter rest ts :=
  ⟨h.1.trans hs, Nat.lt_of_lt_of_le h.2 hs.length_le⟩

theorem Shorter.then_suffix {us rest ts : List Token} (h : Shorter rest ts) (hs : us <:+ rest) :
    Shorter us ts :=
  ⟨hs.trans h.1, Nat.lt_of_le_of_lt hs.length_le h.2⟩

theorem shorter_cons {rest ts : List Token} (t : Token) (h : rest <:+ ts) :
    Shorter rest (t :: ts) :=
  ⟨h.trans (List.suffix_cons t ts), Nat.lt_succ_of_le h.length_le⟩

theorem skipNewlines_suffix (ts : List Token) : skipNewlines ts <:+ ts :=
  List.dropWhile_suffix _

theorem skipSeparators_suffix (ts : List Token) : skipSeparators ts <:+ ts :=
  List.dropWhile_suffix _

/-! ## Phrases -/

/-- What there is a reading function for. A chain and calls go on from an expression. -/
inductive Phrase
  | operand (level : Option Level)
  | chain (level : Level) (left : Expr)
  | unary
  | calls (callee : Expr)
  | arguments
  | moreArguments
  | primary
  | parameters
  | branches
  | block

namespace Phrase

/-- What a phrase is read as. -/
abbrev Value : Phrase → Type
  | .operand _ | .chain .. | .unary | .calls _ | .primary => Expr
  | .arguments | .moreArguments | .block => List Expr
  | .parameters => List Bytes
  | .branches => Branches

/-- The reading function of a phrase. -/
def read (fuel : Nat) : (p : Phrase) → List Token → Except Fault (Read p.Value)
  | .operand l, ts => Parser.operand fuel l ts
  | .chain l left, ts => Parser.chain fuel l left ts
  | .unary, ts => Parser.unary fuel ts
  | .calls callee, ts => Parser.calls fuel callee ts
  | .arguments, ts => Parser.arguments fuel ts
  | .moreArguments, ts => Parser.moreArguments fuel ts
  | .primary, [] => .error (.unexpected .expression [])
  | .primary, t :: ts => Parser.primary fuel t ts
  | .parameters, ts => Parser.parameters ts
  | .branches, ts => Parser.branches fuel ts
  | .block, ts => Parser.block fuel ts

/-- What a phrase leaves of its tokens: fewer, unless it only goes on from something. -/
def Leaves (p : Phrase) (ts rest : List Token) : Prop :=
  match p with
  | .chain .. | .calls _ | .branches => rest <:+ ts
  | _ => Shorter rest ts

theorem Leaves.suffix {p : Phrase} {ts rest : List Token} (h : p.Leaves ts rest) : rest <:+ ts := by
  cases p with
  | chain | calls | branches => exact h
  | _ => exact h.1

end Phrase

/-! ## Rules -/

/-- The tokens `ts` up to `rest` are a phrase with the given value. -/
inductive Derives : (p : Phrase) → List Token → p.Value → List Token → Prop
  | unaryOperand {ts rest : List Token} {e : Expr} (h : Derives .unary (skipNewlines ts) e rest) :
    Derives (.operand none) ts e rest
  | level {l : Level} {ts us rest : List Token} {left e : Expr}
    (first : Derives (.operand l.tighter) ts left us) (more : Derives (.chain l left) us e rest) :
    Derives (.operand (some l)) ts e rest
  | chainEnd {l : Level} {left : Expr} {ts : List Token}
    (hend : ∀ t ∈ ts.head?, l.operator? t.kind = none) : Derives (.chain l left) ts left ts
  | operator {l : Level} {op : BinaryOp} {t : Token} {ts us rest : List Token}
    {left right e : Expr} (hop : l.operator? t.kind = some op)
    (second : Derives (.operand l.right) ts right us)
    (more : Derives (.chain l (.binary left op t.lexeme t.line right)) us e rest) :
    Derives (.chain l left) (t :: ts) e rest
  | sign {op : UnaryOp} {t : Token} {ts rest : List Token} {e : Expr}
    (hop : UnaryOp.ofKind? t.kind = some op) (h : Derives .unary (skipNewlines ts) e rest) :
    Derives .unary (t :: ts) (.unary op t.lexeme t.line e) rest
  | unsigned {t : Token} {ts us rest : List Token} {callee e : Expr}
    (hop : UnaryOp.ofKind? t.kind = none) (first : Derives .primary (t :: ts) callee us)
    (more : Derives (.calls callee) us e rest) : Derives .unary (t :: ts) e rest
  | callsEnd {callee : Expr} {ts : List Token} (hend : ∀ t ∈ ts.head?, t.kind ≠ .leftParen) :
    Derives (.calls callee) ts callee ts
  | call {callee e : Expr} {t : Token} {ts us rest : List Token} {args : List Expr}
    (ht : t.kind = .leftParen) (list : Derives .arguments (skipNewlines ts) args us)
    (more : Derives (.calls (.call callee t.line args)) us e rest) :
    Derives (.calls callee) (t :: ts) e rest
  | noArguments {t : Token} {ts : List Token} (ht : t.kind = .rightParen) :
    Derives .arguments (t :: ts) [] ts
  | firstArgument {t : Token} {ts us rest : List Token} {e : Expr} {es : List Expr}
    (ht : t.kind ≠ .rightParen) (first : Derives (.operand (some .or)) (t :: ts) e us)
    (more : Derives .moreArguments (skipNewlines us) es rest) :
    Derives .arguments (t :: ts) (e :: es) rest
  | argumentsEnd {t : Token} {ts : List Token} (ht : t.kind = .rightParen) :
    Derives .moreArguments (t :: ts) [] ts
  | nextArgument {t : Token} {ts us rest : List Token} {e : Expr} {es : List Expr}
    (ht : t.kind = .comma) (first : Derives (.operand (some .or)) ts e us)
    (more : Derives .moreArguments (skipNewlines us) es rest) :
    Derives .moreArguments (t :: ts) (e :: es) rest
  | literal {t : Token} {ts : List Token} {value : Literal} (ht : t.literal? = some value) :
    Derives .primary (t :: ts) (.literal value) ts
  | reference {t : Token} {ts : List Token} (ht : t.kind = .identifier)
    (hend : ∀ u ∈ ts.head?, u.kind ≠ .assign) :
    Derives .primary (t :: ts) (.variable t.lexeme t.line) ts
  | assignment {t sign : Token} {ts rest : List Token} {value : Expr} (ht : t.kind = .identifier)
    (hsign : sign.kind = .assign) (h : Derives (.operand (some .or)) ts value rest) :
    Derives .primary (t :: sign :: ts) (.assign t.lexeme t.line value) rest
  | grouping {t close : Token} {ts us rest : List Token} {inner : Expr} (ht : t.kind = .leftParen)
    (h : Derives (.operand (some .or)) ts inner us) (hclose : close.kind = .rightParen)
    (hrest : skipNewlines us = close :: rest) : Derives .primary (t :: ts) (.grouping inner) rest
  | braces {t : Token} {ts rest : List Token} {body : List Expr} (ht : t.kind = .leftBrace)
    (h : Derives .block (skipSeparators ts) body rest) :
    Derives .primary (t :: ts) (.block t.line body) rest
  | function {t : Token} {ts us rest : List Token} {params : List Bytes} {body : Expr}
    (ht : t.kind = .bar) (list : Derives .parameters ts params us)
    (h : Derives (.operand (some .or)) us body rest) :
    Derives .primary (t :: ts) (.function t.line params body) rest
  | loop {t name sign : Token} {ts us rest : List Token} {items body : Expr}
    (ht : t.kind = .forWord) (hname : name.kind = .identifier) (hsign : sign.kind = .assign)
    (first : Derives (.operand (some .or)) ts items us)
    (second : Derives (.operand (some .or)) us body rest) :
    Derives .primary (t :: name :: sign :: ts) (.each t.line name.lexeme items body) rest
  | conditional {t : Token} {ts us vs rest : List Token} {test yes : Expr} {no : Branches}
    (ht : t.kind = .ifWord) (first : Derives (.operand (some .or)) ts test us)
    (second : Derives (.operand (some .or)) us yes vs) (more : Derives .branches vs no rest) :
    Derives .primary (t :: ts) (.cond t.line test yes no) rest
  | parametersEnd {t : Token} {ts : List Token} (ht : t.kind = .bar) :
    Derives .parameters (t :: ts) [] ts
  | parameter {t : Token} {ts rest : List Token} {names : List Bytes} (ht : t.kind = .identifier)
    (more : Derives .parameters ts names rest) :
    Derives .parameters (t :: ts) (t.lexeme :: names) rest
  | noElse {ts : List Token} (hend : ∀ t ∈ (skipNewlines ts).head?, t.kind ≠ .elseWord) :
    Derives .branches ts .done ts
  | otherwise {t : Token} {ts us rest : List Token} {body : Expr} (hts : skipNewlines ts = t :: us)
    (ht : t.kind = .elseWord) (hother : ∀ u ∈ us.head?, u.kind ≠ .ifWord)
    (h : Derives (.operand (some .or)) us body rest) :
    Derives .branches ts (.otherwise body) rest
  | elseIf {t u : Token} {ts us vs ws rest : List Token} {test yes : Expr} {no : Branches}
    (hts : skipNewlines ts = t :: u :: us) (ht : t.kind = .elseWord) (hu : u.kind = .ifWord)
    (first : Derives (.operand (some .or)) us test vs)
    (second : Derives (.operand (some .or)) vs yes ws) (more : Derives .branches ws no rest) :
    Derives .branches ts (.elseIf test yes no) rest
  | blockEnd {t : Token} {ts : List Token} (ht : t.kind = .rightBrace) :
    Derives .block (t :: ts) [] ts
  | statement {t : Token} {ts us rest : List Token} {e : Expr} {es : List Expr}
    (ht : t.kind ≠ .rightBrace) (first : Derives (.operand (some .or)) (t :: ts) e us)
    (more : Derives .block (skipSeparators us) es rest) : Derives .block (t :: ts) (e :: es) rest

/-! ## Tokens taken -/

namespace Derives

variable {p : Phrase} {ts rest : List Token} {v : p.Value}

theorem leaves (h : Derives p ts v rest) : p.Leaves ts rest := by
  induction h with
  | chainEnd | callsEnd | noElse => exact List.suffix_refl _
  | noArguments | argumentsEnd | literal | reference | parametersEnd | blockEnd =>
    exact shorter_cons _ (List.suffix_refl _)
  | unaryOperand _ ih => exact ih.of_suffix (skipNewlines_suffix _)
  | level _ _ hfirst hmore => exact hfirst.then_suffix hmore
  | operator _ _ _ hsecond hmore => exact (hmore.trans hsecond.1).trans (List.suffix_cons _ _)
  | sign _ _ ih => exact shorter_cons _ (ih.1.trans (skipNewlines_suffix _))
  | unsigned _ _ _ hfirst hmore => exact hfirst.then_suffix hmore
  | call _ _ _ hlist hmore =>
    exact (hmore.trans (hlist.1.trans (skipNewlines_suffix _))).trans (List.suffix_cons _ _)
  | firstArgument _ _ _ hfirst hmore =>
    exact hfirst.then_suffix (hmore.1.trans (skipNewlines_suffix _))
  | nextArgument _ _ _ hfirst hmore =>
    exact shorter_cons _ ((hmore.1.trans (skipNewlines_suffix _)).trans hfirst.1)
  | assignment _ _ _ ih => exact shorter_cons _ (ih.1.trans (List.suffix_cons _ _))
  | @grouping t close ts us rest _ _ _ _ hrest ih =>
    have hs := skipNewlines_suffix us
    rw [hrest] at hs
    exact shorter_cons t (((List.suffix_cons close rest).trans hs).trans ih.1)
  | braces _ _ ih => exact shorter_cons _ (ih.1.trans (skipSeparators_suffix _))
  | function _ _ _ hlist hbody => exact shorter_cons _ (hbody.1.trans hlist.1)
  | @loop t name sign ts _ _ _ _ _ _ _ _ _ hitems hbody =>
    exact shorter_cons t ((hbody.1.trans hitems.1).trans (List.suffix_append [name, sign] ts))
  | conditional _ _ _ _ htest hyes hno => exact shorter_cons _ (hno.trans (hyes.1.trans htest.1))
  | parameter _ _ ih => exact shorter_cons _ ih.1
  | @otherwise t ts us _ _ hts _ _ _ ih =>
    have hs := skipNewlines_suffix ts
    rw [hts] at hs
    exact (ih.1.trans (List.suffix_cons t us)).trans hs
  | @elseIf t u ts us _ _ _ _ _ _ hts _ _ _ _ _ htest hyes hno =>
    have hs := skipNewlines_suffix ts
    rw [hts] at hs
    exact ((hno.trans (hyes.1.trans htest.1)).trans (List.suffix_append [t, u] us)).trans hs
  | statement _ _ _ hfirst hmore =>
    exact hfirst.then_suffix (hmore.1.trans (skipSeparators_suffix _))

theorem suffix (h : Derives p ts v rest) : rest <:+ ts := h.leaves.suffix

end Derives

end Parser

end ExprLang
