import ExprLang.Value.Text

/-!
# Errors of a run

An error has a cause and the line of the token that raised it.
-/

namespace ExprLang

inductive RuntimeCause
  | undefinedVariable (name : Bytes)
  | notCallable (text : Bytes)
  | wrongArity (want got : Nat)
  | unsupportedOperands (spelling : Bytes) (left right : TypeName)
  | badOperand (type : TypeName)
  | badBounds (start stop : TypeName)
  | notIterable (type : TypeName)
  | notAFunction (builtin : Builtin) (type : TypeName)
  | notACollection (builtin : Builtin) (type : TypeName)
  | emptyReduce
  | divisionByZero
  | integerOverflow
  deriving DecidableEq, Repr

namespace RuntimeCause

/-- The name of the kind of error. -/
def kind : RuntimeCause → Bytes
  | .undefinedVariable _ => bytes "undefined variable"
  | .notCallable _ => bytes "not callable"
  | .wrongArity .. => bytes "wrong number of arguments"
  | .unsupportedOperands .. | .badOperand _ | .badBounds .. | .notIterable _
  | .notAFunction .. | .notACollection .. => bytes "type error"
  | .emptyReduce => bytes "reduce of empty sequence"
  | .divisionByZero => bytes "division by zero"
  | .integerOverflow => bytes "integer overflow"

def message : RuntimeCause → Bytes
  | .undefinedVariable name => bytes "Undefined variable " ++ name
  | .notCallable text => text ++ bytes " is not a function"
  | .wrongArity want got =>
    bytes "Expected " ++ Text.decimal want ++ bytes " arguments but got " ++ Text.decimal got
  | .unsupportedOperands spelling left right =>
    bytes "Unsupported operand types for " ++ spelling ++ bytes ": " ++ left.text ++
      bytes " and " ++ right.text
  | .badOperand type => bytes "Bad operand type for unary -: " ++ type.text
  | .badBounds start stop =>
    bytes "Range bounds must be integers, got " ++ start.text ++ bytes " and " ++ stop.text
  | .notIterable type => type.text ++ bytes " is not iterable"
  | .notAFunction builtin type => builtin.name ++ bytes " expects a function, got " ++ type.text
  | .notACollection builtin type =>
    builtin.name ++ bytes " expects a collection, got " ++ type.text
  | .emptyReduce => bytes "reduce expects at least 1 element"
  | .divisionByZero => bytes "Division by zero"
  | .integerOverflow => bytes "Integer overflow"

end RuntimeCause

structure RuntimeError where
  cause : RuntimeCause
  line : Int
  deriving DecidableEq, Repr

namespace RuntimeError

def message (e : RuntimeError) : Bytes := e.cause.message

/-- One line for the user. -/
def report (e : RuntimeError) : Bytes :=
  bytes "runtime error on line " ++ Text.decimalInt e.line ++ bytes ": " ++ e.message

end RuntimeError

end ExprLang
