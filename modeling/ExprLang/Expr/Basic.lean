import ExprLang.Token.Basic

/-!
# Expressions

Everything in the language is an expression. A node keeps the line of its own token (the operator,
name, brace, keyword, bar or parenthesis), and an operator also its spelling, since equality has
two.
-/

namespace ExprLang

inductive Literal
  | bool (value : Bool)
  | int (value : Int64)
  | float (value : Float)
  | string (value : Bytes)
  deriving DecidableEq

inductive UnaryOp
  | minus
  | not
  deriving DecidableEq, Repr

inductive BinaryOp
  | or | and
  | equal | notEqual
  | greater | less | greaterEqual | lessEqual
  | to
  | plus | minus
  | slash | star
  deriving DecidableEq, Repr

mutual

inductive Expr
  | literal (value : Literal)
  | variable (name : Bytes) (line : Int)
  | grouping (inner : Expr)
  | unary (op : UnaryOp) (spelling : Bytes) (line : Int) (operand : Expr)
  | binary (left : Expr) (op : BinaryOp) (spelling : Bytes) (line : Int) (right : Expr)
  | assign (name : Bytes) (line : Int) (value : Expr)
  | block (line : Int) (body : List Expr)
  | cond (line : Int) (test yes : Expr) (no : Branches)
  | each (line : Int) (name : Bytes) (items body : Expr)
  | function (line : Int) (params : List Bytes) (body : Expr)
  | call (callee : Expr) (line : Int) (args : List Expr)

/-- What follows the first branch of a conditional. -/
inductive Branches
  | done
  | otherwise (body : Expr)
  | elseIf (test yes : Expr) (no : Branches)

end

namespace UnaryOp

def kind : UnaryOp → TokenKind
  | .minus => .minus
  | .not => .bang

def ofKind? : TokenKind → Option UnaryOp
  | .minus => some .minus
  | .bang => some .not
  | _ => none

end UnaryOp

/-- Levels of binary operators, from the loosest to the tightest. -/
inductive Level
  | or | and | equality | comparison | range | additive | multiplicative
  deriving DecidableEq, Repr

namespace Level

/-- The level of the left operand; `none` stands for unary operands. -/
def tighter : Level → Option Level
  | .or => some .and
  | .and => some .equality
  | .equality => some .comparison
  | .comparison => some .range
  | .range => some .additive
  | .additive => some .multiplicative
  | .multiplicative => none

/-- The level of the right operand. A comparison skips ranges there, so `a < 1 to 3` compares `a`
with `1` and stops. -/
def right : Level → Option Level
  | .comparison => some .additive
  | l => l.tighter

end Level

namespace BinaryOp

def kind : BinaryOp → TokenKind
  | .or => .orWord
  | .and => .andWord
  | .equal => .equal
  | .notEqual => .notEqual
  | .greater => .greater
  | .less => .less
  | .greaterEqual => .greaterEqual
  | .lessEqual => .lessEqual
  | .to => .toWord
  | .plus => .plus
  | .minus => .minus
  | .slash => .slash
  | .star => .star

def level : BinaryOp → Level
  | .or => .or
  | .and => .and
  | .equal | .notEqual => .equality
  | .greater | .less | .greaterEqual | .lessEqual => .comparison
  | .to => .range
  | .plus | .minus => .additive
  | .slash | .star => .multiplicative

def ofKind? : TokenKind → Option BinaryOp
  | .orWord => some .or
  | .andWord => some .and
  | .equal => some .equal
  | .notEqual => some .notEqual
  | .greater => some .greater
  | .less => some .less
  | .greaterEqual => some .greaterEqual
  | .lessEqual => some .lessEqual
  | .toWord => some .to
  | .plus => some .plus
  | .minus => some .minus
  | .slash => some .slash
  | .star => some .star
  | _ => none

end BinaryOp

/-- The operator of a level that a token stands for. -/
def Level.operator? (l : Level) (kind : TokenKind) : Option BinaryOp :=
  (BinaryOp.ofKind? kind).filter fun op => op.level = l

end ExprLang
