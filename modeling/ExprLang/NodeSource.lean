import ExprLang.Text.Blank
import ExprLang.Text.LowerCase

/-!
# Source text for syntax-tree nodes

A family of nodes is described by a base name and one description per node, `Name: field, field`.
From these the declarations of the family are written: an interface for the base, a visitor
interface with a method per node, and for each node a structure with its fields and the method
that calls the visitor. A comma inside braces belongs to its field.
-/

namespace ExprLang.NodeSource

/-- The parts of a text between the commas at brace depth zero, the text itself being at `depth`.
-/
def splitFieldsAt : Int → Bytes → List Bytes
  | _, [] => [[]]
  | depth, b :: s =>
    if b = byte ',' ∧ depth = 0 then [] :: splitFieldsAt depth s
    else
      let next :=
        if b = byte '\x7b' then depth + 1 else if b = byte '\x7d' then depth - 1 else depth
      match splitFieldsAt next s with
      | [] => [[b]]
      | part :: parts => (b :: part) :: parts

def splitFields (fields : Bytes) : List Bytes := splitFieldsAt 0 fields

structure Node where
  /-- Not empty. -/
  name : Bytes
  fields : Bytes
  deriving DecidableEq, Repr

namespace Node

/-- Read a description: a name, a colon and fields. -/
def ofText? (text : Bytes) : Option Node :=
  let name := text.takeWhile (· != byte ':')
  match text.drop name.length with
  | [] => none
  | _ :: fields =>
    if (Text.trim name).isEmpty then none else some ⟨Text.trim name, Text.trim fields⟩

/-- The name of a node's structure: its first byte, taken as a character, is in lower case. -/
def structName (base : Bytes) (n : Node) : Bytes :=
  match n.name with
  | [] => base
  | b :: rest => Text.Utf8.encode (Text.lowerChar (Char.ofNat b.toNat)) ++ rest ++ base

/-- The method of the visitor that handles a node. -/
def visitMethod (base : Bytes) (n : Node) : Bytes := bytes "visit" ++ n.name ++ base

/-- The method's line in the visitor interface. -/
def visitLine (base : Bytes) (n : Node) : Bytes :=
  bytes "\t" ++ n.visitMethod base ++ bytes "(" ++ Text.lower base ++ bytes " *" ++
    n.structName base ++ bytes ") R\n"

/-- The declarations of a node. -/
def declarations (base : Bytes) (n : Node) : Bytes :=
  bytes "type " ++ n.structName base ++ bytes " struct \x7b\n" ++
    ((splitFields n.fields).flatMap fun field => bytes "\t" ++ Text.trim field ++ bytes "\n") ++
    bytes "\x7d\n\n" ++
    bytes "func (s *" ++ n.structName base ++ bytes ") accept(visitor " ++ Text.lower base ++
    bytes "Visitor) R \x7b\n" ++
    bytes "\treturn visitor." ++ n.visitMethod base ++ bytes "(s)\n" ++
    bytes "\x7d\n\n"

end Node

/-- The declarations of a family. -/
def generateNodes (base : Bytes) (nodes : List Node) : Bytes :=
  let lower := Text.lower base
  bytes "// Code generated by cmd/ast; DO NOT EDIT.\n\n" ++
    bytes "package internal\n\n" ++
    bytes "// " ++ base ++ bytes " is a node of the syntax tree\n" ++
    bytes "type " ++ base ++ bytes " interface \x7b\n" ++
    bytes "\taccept(" ++ lower ++ bytes "Visitor) R\n" ++
    bytes "\x7d\n\n" ++
    bytes "type " ++ lower ++ bytes "Visitor interface \x7b\n" ++
    nodes.flatMap (Node.visitLine base) ++
    bytes "\x7d\n\n" ++
    nodes.flatMap (Node.declarations base)

/-- The declarations of a family, unless one of the descriptions is malformed. -/
def generate? (base : Bytes) (descriptions : List Bytes) : Option Bytes :=
  (descriptions.mapM Node.ofText?).map (generateNodes base)

/-- The nodes of expression trees. -/
def exprDescriptions : List Bytes := [
  bytes "Literal: value interface\x7b\x7d",
  bytes "Variable: name *Token",
  bytes "Grouping: expression Expr",
  bytes "Unary: operator *Token, right Expr",
  bytes "Binary: left Expr, operator *Token, right Expr",
  bytes "Assign: name *Token, value Expr",
  bytes "Block: brace *Token, stmts []Expr",
  bytes "If: keyword *Token, condition Expr, thenBranch Expr, " ++
    bytes "elifs []*struct\x7b condition, thenBranch Expr \x7d, elseBranch Expr",
  bytes "For: keyword *Token, name *Token, iterable Expr, body Expr",
  bytes "Function: pipe *Token, params []*Token, body Expr",
  bytes "Call: callee Expr, paren *Token, arguments []Expr"]

/-- The declarations of expression trees. -/
def exprSource? : Option Bytes := generate? (bytes "Expr") exprDescriptions

end ExprLang.NodeSource
