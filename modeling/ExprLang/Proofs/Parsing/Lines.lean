import ExprLang.Expr.Parser

/-!
# Lines pass through

The parser copies line numbers from the tokens into expressions and errors and never looks at them:
it commutes with every renumbering of the lines.
-/

namespace ExprLang

/-! ## Renumbering -/

def Token.mapLine (f : Int → Int) (t : Token) : Token := { t with line := f t.line }

def SyntaxError.mapLine (f : Int → Int) (e : SyntaxError) : SyntaxError :=
  { e with line := f e.line }

mutual

def Expr.mapLine (f : Int → Int) : Expr → Expr
  | .literal value => .literal value
  | .variable name line => .variable name (f line)
  | .grouping inner => .grouping (inner.mapLine f)
  | .unary op spelling line e => .unary op spelling (f line) (e.mapLine f)
  | .binary left op spelling line right =>
    .binary (left.mapLine f) op spelling (f line) (right.mapLine f)
  | .assign name line value => .assign name (f line) (value.mapLine f)
  | .block line body => .block (f line) (Expr.mapLines f body)
  | .cond line test yes no => .cond (f line) (test.mapLine f) (yes.mapLine f) (no.mapLine f)
  | .each line name items body => .each (f line) name (items.mapLine f) (body.mapLine f)
  | .function line params body => .function (f line) params (body.mapLine f)
  | .call callee line args => .call (callee.mapLine f) (f line) (Expr.mapLines f args)

def Expr.mapLines (f : Int → Int) : List Expr → List Expr
  | [] => []
  | e :: es => e.mapLine f :: Expr.mapLines f es

def Branches.mapLine (f : Int → Int) : Branches → Branches
  | .done => .done
  | .otherwise body => .otherwise (body.mapLine f)
  | .elseIf test yes no => .elseIf (test.mapLine f) (yes.mapLine f) (no.mapLine f)

end

theorem Expr.mapLines_eq (f : Int → Int) (es : List Expr) :
    Expr.mapLines f es = es.map (Expr.mapLine f) := by
  induction es with
  | nil => rfl
  | cons e es ih => rw [Expr.mapLines, List.map_cons, ih]

/-- An expression without its line numbers. -/
def Expr.unlined (e : Expr) : Expr := e.mapLine fun _ => 0

namespace Parser

def Fault.mapLine (f : Int → Int) : Fault → Fault
  | .unexpected what left => .unexpected what (left.map (Token.mapLine f))
  | .invalidNumber t left => .invalidNumber (t.mapLine f) (left.map (Token.mapLine f))
  | .malformed t => .malformed (t.mapLine f)
  | .outOfFuel => .outOfFuel

def Program.mapLine (f : Int → Int) (p : Program) : Program where
  statements := p.statements.map (Expr.mapLine f)
  errors := p.errors.map (SyntaxError.mapLine f)
  malformed := p.malformed.map (Token.mapLine f)

/-- A renumbered answer; `g` renumbers the value. -/
def relined {α : Type} (f : Int → Int) (g : α → α) :
    Except Fault (Read α) → Except Fault (Read α)
  | .ok r => .ok ⟨g r.value, r.rest.map (Token.mapLine f)⟩
  | .error fault => .error (fault.mapLine f)

theorem relined_bind {α β : Type} {f : Int → Int} {g : α → α} {h : β → β}
    {x x' : Except Fault (Read α)} {k k' : Read α → Except Fault (Read β)}
    (hx : x' = relined f g x)
    (hk : ∀ v rest, k' ⟨g v, rest.map (Token.mapLine f)⟩ = relined f h (k ⟨v, rest⟩)) :
    x' >>= k' = relined f h (x >>= k) := by
  rw [hx]
  cases x with
  | error fault => rfl
  | ok r => exact hk r.value r.rest

/-! ## Single tokens -/

@[simp] theorem mapLine_kind (f : Int → Int) (t : Token) : (t.mapLine f).kind = t.kind := by
  cases t
  rfl

@[simp] theorem mapLine_lexeme (f : Int → Int) (t : Token) : (t.mapLine f).lexeme = t.lexeme := rfl

@[simp] theorem mapLine_line (f : Int → Int) (t : Token) : (t.mapLine f).line = f t.line := rfl

theorem skipNewlines_map (f : Int → Int) (ts : List Token) :
    skipNewlines (ts.map (Token.mapLine f)) = (skipNewlines ts).map (Token.mapLine f) := by
  simp only [skipNewlines, List.dropWhile_map]
  rfl

theorem skipSeparators_map (f : Int → Int) (ts : List Token) :
    skipSeparators (ts.map (Token.mapLine f)) = (skipSeparators ts).map (Token.mapLine f) := by
  simp only [skipSeparators, List.dropWhile_map]
  rfl

theorem expect_map (f : Int → Int) (kind : TokenKind) (what : Expected) (ts : List Token) :
    expect kind what (ts.map (Token.mapLine f)) =
      relined f (Token.mapLine f) (expect kind what ts) := by
  cases ts with
  | nil => rfl
  | cons t ts =>
    simp only [List.map_cons, expect, mapLine_kind]
    by_cases h : t.kind = kind
    · rw [if_pos h, if_pos h]
      rfl
    · rw [if_neg h, if_neg h]
      rfl

theorem parameters_map (f : Int → Int) (ts : List Token) :
    parameters (ts.map (Token.mapLine f)) = relined f id (parameters ts) := by
  induction ts with
  | nil => rfl
  | cons t ts ih =>
    simp only [List.map_cons, parameters, mapLine_kind, mapLine_lexeme]
    by_cases hb : t.kind = .bar
    · rw [if_pos hb, if_pos hb]
      rfl
    · rw [if_neg hb, if_neg hb]
      by_cases hi : t.kind = .identifier
      · rw [if_pos hi, if_pos hi]
        exact relined_bind ih fun names rest => rfl
      · rw [if_neg hi, if_neg hi]
        rfl

theorem intLiteral_map (f : Int → Int) (t : Token) (ts : List Token) :
    intLiteral (t.mapLine f) (ts.map (Token.mapLine f)) =
      relined f (Expr.mapLine f) (intLiteral t ts) := by
  simp only [intLiteral, mapLine_lexeme]
  split <;> rfl

theorem floatLiteral_map (f : Int → Int) (t : Token) (ts : List Token) :
    floatLiteral (t.mapLine f) (ts.map (Token.mapLine f)) =
      relined f (Expr.mapLine f) (floatLiteral t ts) := by
  simp only [floatLiteral, mapLine_lexeme]
  split <;> rfl

theorem stringLiteral_map (f : Int → Int) (t : Token) (ts : List Token) :
    stringLiteral (t.mapLine f) (ts.map (Token.mapLine f)) =
      relined f (Expr.mapLine f) (stringLiteral t ts) := by
  have ht : (t.mapLine f).text? = t.text? := rfl
  simp only [stringLiteral, ht]
  split <;> rfl

/-! ## Expressions -/

/-- Renumbering the tokens renumbers the answer. -/
structure LineLaw (f : Int → Int) (fuel : Nat) : Prop where
  operand : ∀ l ts, operand fuel l (ts.map (Token.mapLine f)) =
    relined f (Expr.mapLine f) (operand fuel l ts)
  chain : ∀ l left ts, chain fuel l (left.mapLine f) (ts.map (Token.mapLine f)) =
    relined f (Expr.mapLine f) (chain fuel l left ts)
  unary : ∀ ts, unary fuel (ts.map (Token.mapLine f)) =
    relined f (Expr.mapLine f) (unary fuel ts)
  calls : ∀ callee ts, calls fuel (callee.mapLine f) (ts.map (Token.mapLine f)) =
    relined f (Expr.mapLine f) (calls fuel callee ts)
  arguments : ∀ ts, arguments fuel (ts.map (Token.mapLine f)) =
    relined f (Expr.mapLines f) (arguments fuel ts)
  moreArguments : ∀ ts, moreArguments fuel (ts.map (Token.mapLine f)) =
    relined f (Expr.mapLines f) (moreArguments fuel ts)
  primary : ∀ t ts, primary fuel (t.mapLine f) (ts.map (Token.mapLine f)) =
    relined f (Expr.mapLine f) (primary fuel t ts)
  branches : ∀ ts, branches fuel (ts.map (Token.mapLine f)) =
    relined f (Branches.mapLine f) (branches fuel ts)
  block : ∀ ts, block fuel (ts.map (Token.mapLine f)) =
    relined f (Expr.mapLines f) (block fuel ts)

theorem lineLaw_zero (f : Int → Int) : LineLaw f 0 where
  operand _ _ := rfl
  chain _ _ _ := rfl
  unary _ := rfl
  calls _ _ := rfl
  arguments _ := rfl
  moreArguments _ := rfl
  primary _ _ := rfl
  branches _ := rfl
  block _ := rfl

section Step

variable {f : Int → Int} {fuel : Nat} (ih : LineLaw f fuel)
include ih

theorem operand_map (l : Option Level) (ts : List Token) :
    operand (fuel + 1) l (ts.map (Token.mapLine f)) =
      relined f (Expr.mapLine f) (operand (fuel + 1) l ts) := by
  cases l with
  | none =>
    simp only [operand, skipNewlines_map]
    exact ih.unary _
  | some l => exact relined_bind (ih.operand l.tighter ts) fun left rest => ih.chain l left rest

theorem chain_map (l : Level) (left : Expr) (ts : List Token) :
    chain (fuel + 1) l (left.mapLine f) (ts.map (Token.mapLine f)) =
      relined f (Expr.mapLine f) (chain (fuel + 1) l left ts) := by
  cases ts with
  | nil => rfl
  | cons t ts =>
    simp only [List.map_cons, chain, mapLine_kind, mapLine_lexeme, mapLine_line]
    split
    · rfl
    · rename_i op _
      apply relined_bind (ih.operand l.right ts)
      intro right rest
      exact ih.chain l (.binary left op t.lexeme t.line right) rest

theorem unary_map (ts : List Token) :
    unary (fuel + 1) (ts.map (Token.mapLine f)) =
      relined f (Expr.mapLine f) (unary (fuel + 1) ts) := by
  cases ts with
  | nil => rfl
  | cons t ts =>
    simp only [List.map_cons, unary, mapLine_kind, mapLine_lexeme, mapLine_line,
      skipNewlines_map]
    split
    · exact relined_bind (ih.unary (skipNewlines ts)) fun e rest => rfl
    · exact relined_bind (ih.primary t ts) fun callee rest => ih.calls callee rest

theorem calls_map (callee : Expr) (ts : List Token) :
    calls (fuel + 1) (callee.mapLine f) (ts.map (Token.mapLine f)) =
      relined f (Expr.mapLine f) (calls (fuel + 1) callee ts) := by
  cases ts with
  | nil => rfl
  | cons t ts =>
    simp only [List.map_cons, calls, mapLine_kind, mapLine_line, skipNewlines_map]
    by_cases h : t.kind = .leftParen
    · rw [if_pos h, if_pos h]
      apply relined_bind (ih.arguments (skipNewlines ts))
      intro args rest
      exact ih.calls (.call callee t.line args) rest
    · rw [if_neg h, if_neg h]
      rfl

theorem arguments_map (ts : List Token) :
    arguments (fuel + 1) (ts.map (Token.mapLine f)) =
      relined f (Expr.mapLines f) (arguments (fuel + 1) ts) := by
  cases ts with
  | nil => rfl
  | cons t ts =>
    simp only [List.map_cons, arguments, mapLine_kind]
    by_cases h : t.kind = .rightParen
    · rw [if_pos h, if_pos h]
      rfl
    · rw [if_neg h, if_neg h]
      apply relined_bind (ih.operand (some .or) (t :: ts))
      intro e rest
      simp only [skipNewlines_map]
      exact relined_bind (ih.moreArguments (skipNewlines rest)) fun es r => rfl

theorem moreArguments_map (ts : List Token) :
    moreArguments (fuel + 1) (ts.map (Token.mapLine f)) =
      relined f (Expr.mapLines f) (moreArguments (fuel + 1) ts) := by
  cases ts with
  | nil => rfl
  | cons t ts =>
    simp only [List.map_cons, moreArguments, mapLine_kind]
    by_cases hc : t.kind = .comma
    · rw [if_pos hc, if_pos hc]
      apply relined_bind (ih.operand (some .or) ts)
      intro e rest
      simp only [skipNewlines_map]
      exact relined_bind (ih.moreArguments (skipNewlines rest)) fun es r => rfl
    · rw [if_neg hc, if_neg hc]
      by_cases hp : t.kind = .rightParen
      · rw [if_pos hp, if_pos hp]
        rfl
      · rw [if_neg hp, if_neg hp]
        rfl

theorem primary_map (t : Token) (ts : List Token) :
    primary (fuel + 1) (t.mapLine f) (ts.map (Token.mapLine f)) =
      relined f (Expr.mapLine f) (primary (fuel + 1) t ts) := by
  simp only [primary, mapLine_kind, mapLine_lexeme, mapLine_line]
  split
  · apply relined_bind (expect_map f _ _ ts)
    intro name r₁
    apply relined_bind (expect_map f _ _ r₁)
    intro _ r₂
    apply relined_bind (ih.operand (some .or) r₂)
    intro items r₃
    exact relined_bind (ih.operand (some .or) r₃) fun body r₄ => rfl
  · apply relined_bind (ih.operand (some .or) ts)
    intro test r₁
    apply relined_bind (ih.operand (some .or) r₁)
    intro yes r₂
    exact relined_bind (ih.branches r₂) fun no r₃ => rfl
  · cases ts with
    | nil => rfl
    | cons u us =>
      simp only [List.map_cons, mapLine_kind]
      by_cases h : u.kind = .assign
      · rw [if_pos h, if_pos h]
        exact relined_bind (ih.operand (some .or) us) fun value r₁ => rfl
      · rw [if_neg h, if_neg h]
        rfl
  · rw [skipSeparators_map]
    exact relined_bind (ih.block (skipSeparators ts)) fun body r₁ => rfl
  · apply relined_bind (parameters_map f ts)
    intro params r₁
    exact relined_bind (ih.operand (some .or) r₁) fun body r₂ => rfl
  · rfl
  · rfl
  · exact intLiteral_map f t ts
  · exact floatLiteral_map f t ts
  · exact stringLiteral_map f t ts
  · apply relined_bind (ih.operand (some .or) ts)
    intro inner r₁
    simp only [skipNewlines_map]
    exact relined_bind (expect_map f _ _ (skipNewlines r₁)) fun _ r₂ => rfl
  · rfl

theorem branches_map (ts : List Token) :
    branches (fuel + 1) (ts.map (Token.mapLine f)) =
      relined f (Branches.mapLine f) (branches (fuel + 1) ts) := by
  simp only [branches, skipNewlines_map]
  cases skipNewlines ts with
  | nil => rfl
  | cons t rest =>
    simp only [List.map_cons, mapLine_kind]
    by_cases he : t.kind = .elseWord
    · rw [if_pos he, if_pos he]
      cases rest with
      | nil => rfl
      | cons u us =>
        simp only [List.map_cons, mapLine_kind]
        by_cases hi : u.kind = .ifWord
        · rw [if_pos hi, if_pos hi]
          apply relined_bind (ih.operand (some .or) us)
          intro test r₁
          apply relined_bind (ih.operand (some .or) r₁)
          intro yes r₂
          exact relined_bind (ih.branches r₂) fun no r₃ => rfl
        · rw [if_neg hi, if_neg hi]
          exact relined_bind (ih.operand (some .or) (u :: us)) fun body r₁ => rfl
    · rw [if_neg he, if_neg he]
      rfl

theorem block_map (ts : List Token) :
    block (fuel + 1) (ts.map (Token.mapLine f)) =
      relined f (Expr.mapLines f) (block (fuel + 1) ts) := by
  cases ts with
  | nil => rfl
  | cons t ts =>
    simp only [List.map_cons, block, mapLine_kind]
    by_cases h : t.kind = .rightBrace
    · rw [if_pos h, if_pos h]
      rfl
    · rw [if_neg h, if_neg h]
      apply relined_bind (ih.operand (some .or) (t :: ts))
      intro e rest
      simp only [skipSeparators_map]
      exact relined_bind (ih.block (skipSeparators rest)) fun es r => rfl

end Step

theorem lineLaw (f : Int → Int) (fuel : Nat) : LineLaw f fuel := by
  induction fuel with
  | zero => exact lineLaw_zero f
  | succ fuel ih =>
    exact ⟨operand_map ih, chain_map ih, unary_map ih, calls_map ih, arguments_map ih,
      moreArguments_map ih, primary_map ih, branches_map ih, block_map ih⟩

/-! ## Programs -/

theorem statement_map (f : Int → Int) (ts : List Token) :
    statement (ts.map (Token.mapLine f)) = relined f (Expr.mapLine f) (statement ts) := by
  simp only [statement, fuelFor, List.length_map]
  exact (lineLaw f _).operand (some .or) ts

theorem recover_map (f : Int → Int) (ts : List Token) :
    recover (ts.map (Token.mapLine f)) = (recover ts).map (Token.mapLine f) := by
  induction ts with
  | nil => rfl
  | cons t ts ih =>
    cases ts with
    | nil => simp [recover]
    | cons u us =>
      simp only [List.map_cons, recover, mapLine_kind] at ih ⊢
      by_cases h : t.kind.isSeparator
      · rw [if_pos h, if_pos h]
        rfl
      · rw [if_neg h, if_neg h]
        by_cases hu : u.kind = .typeWord ∨ u.kind = .ifWord
        · rw [if_pos hu, if_pos hu]
          rfl
        · rw [if_neg hu, if_neg hu]
          exact ih

theorem program_map (f : Int → Int) (stop : Token) (fuel : Nat) (ts : List Token) :
    program (stop.mapLine f) fuel (ts.map (Token.mapLine f)) =
      (program stop fuel ts).mapLine f := by
  induction fuel generalizing ts with
  | zero => rfl
  | succ fuel ih =>
    simp only [program, skipSeparators_map]
    cases skipSeparators ts with
    | nil => rfl
    | cons t rest =>
      have hs := statement_map f (t :: rest)
      simp only [List.map_cons] at hs ⊢
      rw [hs]
      cases statement (t :: rest) with
      | ok r =>
        simp only [relined, ih]
        rfl
      | error fault =>
        cases fault with
        | unexpected what left =>
          simp only [relined, Fault.mapLine, recover_map, ih]
          cases left <;> rfl
        | invalidNumber number left =>
          simp only [relined, Fault.mapLine, recover_map, ih]
          rfl
        | malformed token => rfl
        | outOfFuel => rfl

end Parser

end ExprLang
