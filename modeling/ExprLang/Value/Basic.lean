import ExprLang.Expr.Basic

/-!
# Values

Besides the values of the language there are two that only a host can put into a scope: one that is
absent and one of a foreign type, kept as its text. No operator, call or loop accepts them, and
they equal nothing.

Functions are told apart by the number they got when they were made, builtins by the set of globals
they were made with.
-/

namespace ExprLang

inductive Builtin
  | print
  | map
  | filter
  | reduce
  deriving DecidableEq, Repr

/-- A set of globals. The printing of a muted one goes nowhere. -/
structure Root where
  id : Nat
  muted : Bool
  deriving DecidableEq, Repr

inductive Value
  | int (value : Int64)
  | float (value : Float)
  | string (value : Bytes)
  | bool (value : Bool)
  | null
  | list (items : List Value)
  | range (start stop : Int64)
  | function (id : Nat) (params : List Bytes) (body : Expr)
  | builtin (which : Builtin) (root : Root)
  | absent
  | foreign (text : Bytes)

inductive TypeName
  | int | float | string | bool | list | range | function | null
  deriving DecidableEq, Repr

namespace TypeName

def text : TypeName → Bytes
  | .int => bytes "int"
  | .float => bytes "float"
  | .string => bytes "string"
  | .bool => bytes "bool"
  | .list => bytes "list"
  | .range => bytes "range"
  | .function => bytes "function"
  | .null => bytes "null"

end TypeName

namespace Builtin

def name : Builtin → Bytes
  | .print => bytes "print"
  | .map => bytes "map"
  | .filter => bytes "filter"
  | .reduce => bytes "reduce"

/-- The number of arguments; `none` for any number. -/
def arity : Builtin → Option Nat
  | .print => none
  | .map | .filter | .reduce => some 2

def all : List Builtin := [.print, .map, .filter, .reduce]

end Builtin

def Literal.value : Literal → Value
  | .bool b => .bool b
  | .int n => .int n
  | .float x => .float x
  | .string s => .string s

namespace Value

def typeName : Value → TypeName
  | .int _ => .int
  | .float _ => .float
  | .string _ => .string
  | .bool _ => .bool
  | .list _ => .list
  | .range .. => .range
  | .function .. | .builtin .. => .function
  | .null | .absent | .foreign _ => .null

def truthy : Value → Bool
  | .null | .absent => false
  | .bool b => b
  | .int n => n != 0
  | .float x => !Float.beq x 0
  | .string s => !s.isEmpty
  | .list items => !items.isEmpty
  | .range start stop => decide (start < stop)
  | .function .. | .builtin .. | .foreign _ => true

mutual

/-- Structural equality. An integer and a float are compared as floats, and functions by their
identity. -/
def equals : Value → Value → Bool
  | .int x, .int y => x == y
  | .int x, .float y => Float.beq x.toFloat y
  | .float x, .int y => Float.beq x y.toFloat
  | .float x, .float y => Float.beq x y
  | .string s, .string t => s == t
  | .bool a, .bool b => a == b
  | .null, .null => true
  | .list xs, .list ys => equalsAll xs ys
  | .range a b, .range c d => a == c && b == d
  | .function i _ _, .function j _ _ => i == j
  | .builtin b r, .builtin c q => b == c && r == q
  | _, _ => false

def equalsAll : List Value → List Value → Bool
  | [], [] => true
  | x :: xs, y :: ys => equals x y && equalsAll xs ys
  | _, _ => false

end

end Value

end ExprLang
