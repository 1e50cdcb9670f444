import Mathlib.Data.List.Forall2
import Mathlib.Data.List.TakeWhile
import ExprLang.Expr.Printer
import ExprLang.Proofs.Parsing.Progress

/-!
# The leaves and the levels of a tree

A tree keeps something of every token it was read from: the value of a literal, the text of a name,
the kind, spelling and line of an operator, and the kind of everything else. Its leaves, from left
to right, can be held against a list of tokens. Its operators have levels, and a tree is ordered if
no operand binds less tightly than its place asks for.
-/

namespace ExprLang

/-! ## Leaves -/

/-- What a tree keeps of a token. -/
inductive Leaf
  /-- A bracket, a comma, a word or a sign. The line is kept where it is the line of a node. -/
  | mark (kind : TokenKind) (line : Option Int)
  /-- A name. The line is kept for variables and for names that are assigned. -/
  | name (text : Bytes) (line : Option Int)
  | operator (kind : TokenKind) (spelling : Bytes) (line : Int)
  | literal (value : Literal)

/-- Whether a leaf can come from a token. -/
def Leaf.fits : Leaf → Token → Bool
  | .mark kind line, t => t.kind == kind && line.all (· == t.line)
  | .name text line, t => t.kind == .identifier && (t.lexeme == text && line.all (· == t.line))
  | .operator kind spelling line, t => t.kind == kind && (t.lexeme == spelling && t.line == line)
  | .literal value, t => t.literal? == some value

mutual

/-- The leaves of a tree, from left to right. -/
def Expr.leaves : Expr → List Leaf
  | .literal value => [.literal value]
  | .variable name line => [.name name (some line)]
  | .grouping inner => .mark .leftParen none :: (inner.leaves ++ [.mark .rightParen none])
  | .unary op spelling line e => .operator op.kind spelling line :: e.leaves
  | .binary left op spelling line right =>
    left.leaves ++ .operator op.kind spelling line :: right.leaves
  | .assign name line value => .name name (some line) :: .mark .assign none :: value.leaves
  | .block line body =>
    .mark .leftBrace (some line) :: (Expr.leavesAll body ++ [.mark .rightBrace none])
  | .cond line test yes no =>
    .mark .ifWord (some line) :: (test.leaves ++ (yes.leaves ++ no.leaves))
  | .each line name items body =>
    .mark .forWord (some line) :: .name name none :: .mark .assign none ::
      (items.leaves ++ body.leaves)
  | .function line params body =>
    .mark .bar (some line) ::
      (params.map (Leaf.name · none) ++ .mark .bar none :: body.leaves)
  | .call callee line args =>
    callee.leaves ++ .mark .leftParen (some line) ::
      (Expr.argumentLeaves args ++ [.mark .rightParen none])

def Expr.leavesAll : List Expr → List Leaf
  | [] => []
  | e :: es => e.leaves ++ Expr.leavesAll es

/-- Arguments, with commas between them. -/
def Expr.argumentLeaves : List Expr → List Leaf
  | [] => []
  | e :: es => e.leaves ++ Expr.moreArgumentLeaves es

def Expr.moreArgumentLeaves : List Expr → List Leaf
  | [] => []
  | e :: es => .mark .comma none :: (e.leaves ++ Expr.moreArgumentLeaves es)

def Branches.leaves : Branches → List Leaf
  | .done => []
  | .otherwise body => .mark .elseWord none :: body.leaves
  | .elseIf test yes no =>
    .mark .elseWord none :: .mark .ifWord none :: (test.leaves ++ (yes.leaves ++ no.leaves))

end

/-! ## Levels -/

/-- How tightly the operators of a level bind. -/
def Level.height : Level → Nat
  | .or => 0
  | .and => 1
  | .equality => 2
  | .comparison => 3
  | .range => 4
  | .additive => 5
  | .multiplicative => 6

/-- How tightly an expression holds together: unary operators bind more tightly than binary ones,
and everything else is as good as closed. -/
def Expr.height : Expr → Nat
  | .binary _ op _ _ _ => op.level.height
  | .unary .. => 7
  | _ => 8

mutual

/-- Every operand binds as tightly as its place asks for, and callees are closed. -/
def Expr.isOrdered : Expr → Bool
  | .literal _ | .variable .. => true
  | .grouping inner => inner.isOrdered
  | .unary _ _ _ e => decide (7 ≤ e.height) && e.isOrdered
  | .binary left op _ _ right =>
    decide (op.level.height ≤ left.height) && decide (op.level.height < right.height) &&
      (op.level != .comparison || decide (Level.additive.height ≤ right.height)) &&
      (left.isOrdered && right.isOrdered)
  | .assign _ _ value => value.isOrdered
  | .block _ body => Expr.areOrdered body
  | .cond _ test yes no => test.isOrdered && (yes.isOrdered && no.isOrdered)
  | .each _ _ items body => items.isOrdered && body.isOrdered
  | .function _ _ body => body.isOrdered
  | .call callee _ args => callee.isClosed && (callee.isOrdered && Expr.areOrdered args)

def Expr.areOrdered : List Expr → Bool
  | [] => true
  | e :: es => e.isOrdered && Expr.areOrdered es

def Branches.isOrdered : Branches → Bool
  | .done => true
  | .otherwise body => body.isOrdered
  | .elseIf test yes no => test.isOrdered && (yes.isOrdered && no.isOrdered)

end

theorem isOrdered_binary {left right : Expr} {op : BinaryOp} (spelling : Bytes) (line : Int)
    (hl : op.level.height ≤ left.height) (hr : op.level.height < right.height)
    (hc : op.level = .comparison → Level.additive.height ≤ right.height)
    (hol : left.isOrdered = true) (hor : right.isOrdered = true) :
    (Expr.binary left op spelling line right).isOrdered = true := by
  have hcomparison : (op.level != .comparison ||
      decide (Level.additive.height ≤ right.height)) = true := by
    by_cases h : op.level = .comparison
    · simp [hc h]
    · simp [h]
  simp only [Expr.isOrdered, hl, hr, hcomparison, hol, hor, decide_true, Bool.and_self]

namespace Parser

/-- The height asked for where an operand of a level is due. -/
def heightOf : Option Level → Nat
  | none => 7
  | some l => l.height

theorem heightOf_tighter (l : Level) : heightOf l.tighter = l.height + 1 := by cases l <;> rfl

theorem height_lt_right (l : Level) : l.height < heightOf l.right := by cases l <;> decide

theorem additive_le_right {l : Level} (h : l = .comparison) :
    Level.additive.height ≤ heightOf l.right := by
  subst h
  decide

theorem operator?_eq_some {l : Level} {kind : TokenKind} {op : BinaryOp}
    (h : l.operator? kind = some op) : op.level = l ∧ kind = op.kind := by
  obtain ⟨hkind, hlevel⟩ := Option.filter_eq_some_iff.mp h
  refine ⟨by simpa using hlevel, ?_⟩
  cases kind <;> simp [BinaryOp.ofKind?] at hkind <;> subst hkind <;> rfl

theorem ofKind?_eq_some {kind : TokenKind} {op : UnaryOp} (h : UnaryOp.ofKind? kind = some op) :
    kind = op.kind := by
  cases kind <;> simp [UnaryOp.ofKind?] at h <;> subst h <;> rfl

theorem isSeparator_binary (op : BinaryOp) : op.kind.isSeparator = false := by cases op <;> rfl

theorem isSeparator_unary (op : UnaryOp) : op.kind.isSeparator = false := by cases op <;> rfl

/-! ## Tokens read -/

theorem fits_mark {t : Token} {kind : TokenKind} (h : t.kind = kind) :
    (Leaf.mark kind none).fits t = true := by
  simp [Leaf.fits, h]

theorem fits_markAt {t : Token} {kind : TokenKind} (h : t.kind = kind) :
    (Leaf.mark kind (some t.line)).fits t = true := by
  simp [Leaf.fits, h]

theorem fits_name {t : Token} (h : t.kind = .identifier) :
    (Leaf.name t.lexeme none).fits t = true := by
  simp [Leaf.fits, h]

theorem fits_nameAt {t : Token} (h : t.kind = .identifier) :
    (Leaf.name t.lexeme (some t.line)).fits t = true := by
  simp [Leaf.fits, h]

/-- The tokens between `ts` and `rest` are the given leaves, up to separators. -/
def Spans (leaves : List Leaf) (ts rest : List Token) : Prop :=
  ∃ used, ts = used ++ rest ∧
    List.Forall₂ (fun leaf t => leaf.fits t = true) leaves
      (used.filter fun t => !t.kind.isSeparator)

theorem spans_nil (ts : List Token) : Spans [] ts ts := ⟨[], rfl, .nil⟩

theorem Spans.append {xs ys : List Leaf} {ts us rest : List Token} (h : Spans xs ts us)
    (h' : Spans ys us rest) : Spans (xs ++ ys) ts rest := by
  obtain ⟨used, rfl, hu⟩ := h
  obtain ⟨used', rfl, hu'⟩ := h'
  refine ⟨used ++ used', (List.append_assoc _ _ _).symm, ?_⟩
  rw [List.filter_append]
  exact List.rel_append hu hu'

theorem Spans.cons {leaf : Leaf} {xs : List Leaf} {t : Token} {ts rest : List Token}
    (hs : t.kind.isSeparator = false) (hf : leaf.fits t = true) (h : Spans xs ts rest) :
    Spans (leaf :: xs) (t :: ts) rest := by
  obtain ⟨used, rfl, hu⟩ := h
  refine ⟨t :: used, rfl, ?_⟩
  rw [List.filter_cons_of_pos (by simp [hs])]
  exact .cons hf hu

/-- Separators in front make no difference. -/
theorem spans_dropWhile {p : Token → Bool} (hp : ∀ t, p t = true → t.kind.isSeparator = true)
    {xs : List Leaf} {ts rest : List Token} (h : Spans xs (ts.dropWhile p) rest) :
    Spans xs ts rest := by
  obtain ⟨used, hd, hu⟩ := h
  refine ⟨ts.takeWhile p ++ used, ?_, ?_⟩
  · rw [List.append_assoc, ← hd, List.takeWhile_append_dropWhile]
  · have hnone : (ts.takeWhile p).filter (fun t => !t.kind.isSeparator) = [] := by
      rw [List.filter_eq_nil_iff]
      intro t ht
      simp [hp t (List.mem_takeWhile_imp ht)]
    rw [List.filter_append, hnone]
    exact hu

theorem spans_skipNewlines {xs : List Leaf} {ts rest : List Token}
    (h : Spans xs (skipNewlines ts) rest) : Spans xs ts rest :=
  spans_dropWhile (fun t ht => by simp [TokenKind.isSeparator, beq_iff_eq.mp ht]) h

theorem spans_skipSeparators {xs : List Leaf} {ts rest : List Token}
    (h : Spans xs (skipSeparators ts) rest) : Spans xs ts rest :=
  spans_dropWhile (fun _ ht => ht) h

/-- No argument list directly follows. -/
def Uncalled (rest : List Token) : Prop := ∀ t us, rest = t :: us → t.kind ≠ .leftParen

theorem uncalled_of_head {ts : List Token} (h : ∀ t ∈ ts.head?, t.kind ≠ .leftParen) :
    Uncalled ts := by
  rintro t us rfl
  exact h t rfl

end Parser

end ExprLang
