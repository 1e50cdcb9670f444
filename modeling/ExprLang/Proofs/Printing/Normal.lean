import ExprLang.Expr.Printer
import ExprLang.Proofs.Scanning.Tokens

/-!
# What reading a printed expression gives

Printing puts operands that are not closed into parentheses and branches that are not blocks into
braces. Reading the text gives the expression with these groupings and blocks in place, its normal
form, which has the same text.
-/

namespace ExprLang

/-! ## Well-formed expressions -/

/-- Literals that a text can spell. -/
def Literal.isWellFormed : Literal → Bool
  | .bool _ => true
  | .int n => decide (0 ≤ n)
  | .float x => Number.isPlain x
  | .string s => !s.contains (byte '"')

def UnaryOp.spelling : UnaryOp → Bytes
  | .minus => bytes "-"
  | .not => bytes "!"

/-- The lexemes of an operator; only equality has two. -/
def BinaryOp.spellings : BinaryOp → List Bytes
  | .or => [bytes "or"]
  | .and => [bytes "and"]
  | .equal => [bytes "=", bytes "=="]
  | .notEqual => [bytes "!="]
  | .greater => [bytes ">"]
  | .less => [bytes "<"]
  | .greaterEqual => [bytes ">="]
  | .lessEqual => [bytes "<="]
  | .to => [bytes "to"]
  | .plus => [bytes "+"]
  | .minus => [bytes "-"]
  | .slash => [bytes "/"]
  | .star => [bytes "*"]

mutual

/-- Names are words other than keywords, literals can be spelled, and operators carry a lexeme of
their own. -/
def Expr.isWellFormed : Expr → Bool
  | .literal value => value.isWellFormed
  | .variable name _ => Piece.isName name
  | .grouping inner => inner.isWellFormed
  | .unary op spelling _ e => spelling == op.spelling && e.isWellFormed
  | .binary left op spelling _ right =>
    op.spellings.contains spelling && (left.isWellFormed && right.isWellFormed)
  | .assign name _ value => Piece.isName name && value.isWellFormed
  | .block _ body => Expr.areWellFormed body
  | .cond _ test yes no => test.isWellFormed && (yes.isWellFormed && no.isWellFormed)
  | .each _ name items body => Piece.isName name && (items.isWellFormed && body.isWellFormed)
  | .function _ params body => params.all Piece.isName && body.isWellFormed
  | .call callee _ args => callee.isWellFormed && Expr.areWellFormed args

def Expr.areWellFormed : List Expr → Bool
  | [] => true
  | e :: es => e.isWellFormed && Expr.areWellFormed es

def Branches.isWellFormed : Branches → Bool
  | .done => true
  | .otherwise body => body.isWellFormed
  | .elseIf test yes no => test.isWellFormed && (yes.isWellFormed && no.isWellFormed)

end

theorem Expr.areWellFormed_iff {es : List Expr} :
    Expr.areWellFormed es = true ↔ ∀ e ∈ es, e.isWellFormed = true := by
  induction es with
  | nil => simp [Expr.areWellFormed]
  | cons e es ih => simp [Expr.areWellFormed, ih]

/-! ## Induction on expressions -/

/-- Properties of expressions and of branches that a node inherits from its parts. -/
structure Compositional (P : Expr → Prop) (Q : Branches → Prop) : Prop where
  literal : ∀ value, P (.literal value)
  var : ∀ name line, P (.variable name line)
  grouping : ∀ inner, P inner → P (.grouping inner)
  unary : ∀ op spelling line e, P e → P (.unary op spelling line e)
  binary : ∀ left op spelling line right, P left → P right →
    P (.binary left op spelling line right)
  assign : ∀ name line value, P value → P (.assign name line value)
  block : ∀ line body, (∀ e ∈ body, P e) → P (.block line body)
  cond : ∀ line test yes no, P test → P yes → Q no → P (.cond line test yes no)
  each : ∀ line name items body, P items → P body → P (.each line name items body)
  function : ∀ line params body, P body → P (.function line params body)
  call : ∀ callee line args, P callee → (∀ e ∈ args, P e) → P (.call callee line args)
  done : Q .done
  otherwise : ∀ body, P body → Q (.otherwise body)
  elseIf : ∀ test yes no, P test → P yes → Q no → Q (.elseIf test yes no)

theorem Compositional.expr {P : Expr → Prop} {Q : Branches → Prop} (h : Compositional P Q)
    (e : Expr) : P e :=
  @Expr.rec P Q (fun es => ∀ e ∈ es, P e) h.literal h.var h.grouping h.unary h.binary h.assign
    h.block h.cond h.each h.function h.call h.done h.otherwise h.elseIf (by simp)
    (fun _ _ he hes => List.forall_mem_cons.mpr ⟨he, hes⟩) e

theorem Compositional.branches {P : Expr → Prop} {Q : Branches → Prop} (h : Compositional P Q)
    (b : Branches) : Q b :=
  @Branches.rec P Q (fun es => ∀ e ∈ es, P e) h.literal h.var h.grouping h.unary h.binary h.assign
    h.block h.cond h.each h.function h.call h.done h.otherwise h.elseIf (by simp)
    (fun _ _ he hes => List.forall_mem_cons.mpr ⟨he, hes⟩) b

/-! ## Normal forms -/

namespace Expr

/-- What is read back for an operand, given what is read back for the expression. -/
def grouped (e normal : Expr) : Expr := if e.isClosed then normal else .grouping normal

/-- What is read back for a branch, given what is read back for the expression. -/
def braced (e normal : Expr) : Expr := if e.isBlock then normal else .block 0 [normal]

end Expr

mutual

/-- The expression with a grouping around every operand that is not closed and a block around every
branch and every body of a loop that is not one. -/
def Expr.norm : Expr → Expr
  | .literal value => .literal value
  | .variable name line => .variable name line
  | .grouping inner => .grouping inner.norm
  | .unary op spelling line e => .unary op spelling line (e.grouped e.norm)
  | .binary left op spelling line right =>
    .binary (left.grouped left.norm) op spelling line (right.grouped right.norm)
  | .assign name line value => .assign name line value.norm
  | .block line body => .block line (Expr.normAll body)
  | .cond line test yes no =>
    .cond line (test.grouped test.norm) (yes.braced yes.norm) no.norm
  | .each line name items body =>
    .each line name (items.grouped items.norm) (body.braced body.norm)
  | .function line params body => .function line params body.norm
  | .call callee line args => .call (callee.grouped callee.norm) line (Expr.normAll args)

def Expr.normAll : List Expr → List Expr
  | [] => []
  | e :: es => e.norm :: Expr.normAll es

def Branches.norm : Branches → Branches
  | .done => .done
  | .otherwise body => .otherwise (body.braced body.norm)
  | .elseIf test yes no =>
    .elseIf (test.grouped test.norm) (yes.braced yes.norm) no.norm

end

namespace Expr

theorem normAll_eq (es : List Expr) : normAll es = es.map norm := by
  induction es with
  | nil => rfl
  | cons e es ih => rw [normAll, List.map_cons, ih]

theorem formatAll_eq (es : List Expr) : formatAll es = es.map format := by
  induction es with
  | nil => rfl
  | cons e es ih => rw [formatAll, List.map_cons, ih]

theorem isClosed_norm (e : Expr) : e.norm.isClosed = e.isClosed := by cases e <;> rfl

theorem isBlock_norm (e : Expr) : e.norm.isBlock = e.isBlock := by cases e <;> rfl

/-- An operand is printed as before. -/
theorem asOperand_grouped {e : Expr} (h : e.norm.format = e.format) :
    (e.grouped e.norm).asOperand (e.grouped e.norm).format = e.asOperand e.format := by
  unfold grouped
  split
  · rename_i hc
    rw [asOperand, asOperand, isClosed_norm, h]
  · rename_i hc
    rw [asOperand, asOperand, if_neg hc, ← h]
    rfl

/-- A branch is printed as before. -/
theorem asBranch_braced {e : Expr} (h : e.norm.format = e.format) :
    (e.braced e.norm).asBranch (e.braced e.norm).format = e.asBranch e.format := by
  unfold braced
  split
  · rename_i hb
    rw [asBranch, asBranch, isBlock_norm, h]
  · rename_i hb
    have hblock : (Expr.block 0 [e.norm]).isBlock = true := rfl
    rw [asBranch, asBranch, if_neg hb, if_pos hblock, ← h]
    simp [format, formatAll]

theorem map_format_norm {es : List Expr} (h : ∀ e ∈ es, e.norm.format = e.format) :
    (es.map norm).map format = es.map format := by
  rw [List.map_map]
  exact List.map_congr_left h

theorem format_norm_compositional :
    Compositional (fun e => e.norm.format = e.format) (fun b => b.norm.format = b.format) where
  literal _ := rfl
  var _ _ := rfl
  grouping inner h := by simp only [norm, format, h]
  unary op spelling line e h := by simp only [norm, format, asOperand_grouped h]
  binary left op spelling line right hl hr := by
    simp only [norm, format, asOperand_grouped hl, asOperand_grouped hr]
  assign name line value h := by simp only [norm, format, h]
  block line body h := by
    cases body with
    | nil => rfl
    | cons e es =>
      obtain ⟨he, hes⟩ := List.forall_mem_cons.mp h
      simp only [norm, normAll, format, formatAll_eq, normAll_eq, he, map_format_norm hes]
  cond line test yes no ht hy hn := by
    simp only [norm, format, asOperand_grouped ht, asBranch_braced hy, hn]
  each line name items body hi hb := by
    simp only [norm, format, asOperand_grouped hi, asBranch_braced hb]
  function line params body h := by simp only [norm, format, h]
  call callee line args hc ha := by
    simp only [norm, format, formatAll_eq, normAll_eq, asOperand_grouped hc, map_format_norm ha]
  done := rfl
  otherwise body h := by simp only [Branches.norm, Branches.format, asBranch_braced h]
  elseIf test yes no ht hy hn := by
    simp only [Branches.norm, Branches.format, asOperand_grouped ht, asBranch_braced hy, hn]

/-- An expression and its normal form have the same text. -/
theorem format_norm (e : Expr) : e.norm.format = e.format := format_norm_compositional.expr e

end Expr

end ExprLang
