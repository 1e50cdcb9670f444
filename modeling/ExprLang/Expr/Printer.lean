import ExprLang.Expr.Basic
import ExprLang.Number.Integer
import ExprLang.Number.Shortest

/-!
# Printing expressions

The printed text of an expression parses back to an equivalent one. Operands that would swallow
what follows them are put in parentheses, and the branches of conditionals and the bodies of loops
in braces.
-/

namespace ExprLang

def Literal.text : Literal → Bytes
  | .bool b => bytes (if b then "true" else "false")
  | .int n => Number.intText n
  | .float x => Number.floatText x
  | .string s => byte '"' :: s ++ [byte '"']

namespace Expr

/-- Expressions that end by themselves and need no parentheses as operands. -/
def isClosed : Expr → Bool
  | .literal _ | .variable .. | .grouping _ | .call .. | .block .. => true
  | _ => false

def isBlock : Expr → Bool
  | .block .. => true
  | _ => false

/-- The text of an operand, given the text of the expression. -/
def asOperand (e : Expr) (text : Bytes) : Bytes :=
  if e.isClosed then text else byte '(' :: text ++ [byte ')']

/-- The text of a branch, given the text of the expression. -/
def asBranch (e : Expr) (text : Bytes) : Bytes :=
  if e.isBlock then text else bytes "\x7b " ++ text ++ bytes " \x7d"

end Expr

mutual

def Expr.format : Expr → Bytes
  | .literal value => value.text
  | .variable name _ => name
  | .grouping inner => byte '(' :: inner.format ++ [byte ')']
  | .unary _ spelling _ e => spelling ++ e.asOperand e.format
  | .binary left _ spelling _ right =>
    left.asOperand left.format ++ bytes " " ++ spelling ++ bytes " " ++
      right.asOperand right.format
  | .assign name _ value => name ++ bytes " := " ++ value.format
  | .block _ [] => bytes "\x7b\x7d"
  | .block _ (e :: es) =>
    bytes "\x7b " ++ (bytes "; ").intercalate (e.format :: Expr.formatAll es) ++ bytes " \x7d"
  | .cond _ test yes no =>
    bytes "if " ++ test.asOperand test.format ++ bytes " " ++ yes.asBranch yes.format ++
      no.format
  | .each _ name items body =>
    bytes "for " ++ name ++ bytes " := " ++ items.asOperand items.format ++ bytes " " ++
      body.asBranch body.format
  | .function _ params body =>
    bytes "|" ++ (bytes " ").intercalate params ++ bytes "| " ++ body.format
  | .call callee _ args =>
    callee.asOperand callee.format ++ bytes "(" ++ (bytes ", ").intercalate (Expr.formatAll args) ++
      bytes ")"

def Expr.formatAll : List Expr → List Bytes
  | [] => []
  | e :: es => e.format :: Expr.formatAll es

def Branches.format : Branches → Bytes
  | .done => []
  | .otherwise body => bytes " else " ++ body.asBranch body.format
  | .elseIf test yes no =>
    bytes " else if " ++ test.asOperand test.format ++ bytes " " ++ yes.asBranch yes.format ++
      no.format

end

/-- The statements of a program, one to a line. -/
def Expr.formatProgram (statements : List Expr) : Bytes :=
  (bytes "\n").intercalate (statements.map Expr.format)

end ExprLang
