import ExprLang.Value.Basic
import ExprLang.Number.Integer

/-!
# Operators on values

Two integers stay integers and must not overflow, except under division, which always gives a
float; an integer beside a float becomes one. Strings can be joined and compared byte by byte,
lists can be joined, and nothing else is ordered.
-/

namespace ExprLang

inductive OperatorFault
  | unsupported
  | divisionByZero
  | overflow
  deriving DecidableEq, Repr

namespace Value

def checked : Option Int64 → Except OperatorFault Value
  | some n => .ok (.int n)
  | none => .error .overflow

def divide (x y : Float) : Except OperatorFault Value :=
  if Float.beq y 0 then .error .divisionByZero else .ok (.float (x / y))

/-- Arithmetic and order on integers. -/
def integerOp (op : BinaryOp) (x y : Int64) : Except OperatorFault Value :=
  match op with
  | .plus => checked (Number.add? x y)
  | .minus => checked (Number.sub? x y)
  | .star => checked (Number.mul? x y)
  | .slash => divide x.toFloat y.toFloat
  | .less => .ok (.bool (decide (x < y)))
  | .lessEqual => .ok (.bool (decide (x ≤ y)))
  | .greater => .ok (.bool (decide (y < x)))
  | .greaterEqual => .ok (.bool (decide (y ≤ x)))
  | _ => .error .unsupported

/-- Arithmetic and order on floats. -/
def floatOp (op : BinaryOp) (x y : Float) : Except OperatorFault Value :=
  match op with
  | .plus => .ok (.float (x + y))
  | .minus => .ok (.float (x - y))
  | .star => .ok (.float (x * y))
  | .slash => divide x y
  | .less => .ok (.bool (Float.lt x y))
  | .lessEqual => .ok (.bool (Float.le x y))
  | .greater => .ok (.bool (Float.lt y x))
  | .greaterEqual => .ok (.bool (Float.le y x))
  | _ => .error .unsupported

def stringOp (op : BinaryOp) (s t : Bytes) : Except OperatorFault Value :=
  match op with
  | .plus => .ok (.string (s ++ t))
  | .less => .ok (.bool (decide (s < t)))
  | .lessEqual => .ok (.bool (decide (s ≤ t)))
  | .greater => .ok (.bool (decide (t < s)))
  | .greaterEqual => .ok (.bool (decide (t ≤ s)))
  | _ => .error .unsupported

/-- An arithmetic or ordering operator, by the types of its operands. -/
def operate (op : BinaryOp) : Value → Value → Except OperatorFault Value
  | .int x, .int y => integerOp op x y
  | .int x, .float y => floatOp op x.toFloat y
  | .float x, .int y => floatOp op x y.toFloat
  | .float x, .float y => floatOp op x y
  | .string s, .string t => stringOp op s t
  | .list xs, .list ys => if op = .plus then .ok (.list (xs ++ ys)) else .error .unsupported
  | _, _ => .error .unsupported

def negate : Value → Except OperatorFault Value
  | .int n => checked (Number.neg? n)
  | .float x => .ok (.float (-x))
  | _ => .error .unsupported

end Value

end ExprLang
