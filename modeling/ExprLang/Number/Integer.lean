import ExprLang.Text.Bytes

/-!
# Integers

Integers are 64-bit words. Arithmetic on words wraps, so each operation compares signs (addition,
subtraction) or divides back (multiplication) to tell whether the wrapped result is the exact one.
-/

namespace ExprLang.Number

def nonneg (x : Int64) : Bool := decide (0 ≤ x)

/-- The sum, unless it does not fit: two operands of one sign with a sum of the other. -/
def add? (x y : Int64) : Option Int64 :=
  let sum := x + y
  if nonneg x = nonneg y ∧ nonneg sum ≠ nonneg x then none else some sum

/-- The difference, unless it does not fit: operands of two signs with a result unlike the first. -/
def sub? (x y : Int64) : Option Int64 :=
  let diff := x - y
  if nonneg x ≠ nonneg y ∧ nonneg diff ≠ nonneg x then none else some diff

/-- The product, unless it does not fit. Dividing back shows a wrapped product, except for the
least integer times `-1`, where the division wraps too. -/
def mul? (x y : Int64) : Option Int64 :=
  if x = 0 ∨ y = 0 then some 0
  else
    let product := x * y
    if product / y ≠ x ∨ (x = -1 ∧ y = Int64.minValue) ∨ (y = -1 ∧ x = Int64.minValue) then none
    else some product

/-- The negation; only the least integer has none. -/
def neg? (x : Int64) : Option Int64 := if x = Int64.minValue then none else some (-x)

def intText (n : Int64) : Bytes := Text.decimalInt n.toInt

/-! ## Reading -/

def isDigit (b : UInt8) : Bool := byte '0' ≤ b && b ≤ byte '9'

/-- The number spelled by decimal digits. -/
def ofDigits (s : Bytes) : Nat := s.foldl (fun n b => n * 10 + (b.toNat - 48)) 0

/-- A text without its sign, and whether the sign was a minus. -/
def splitSign : Bytes → Bool × Bytes
  | [] => (false, [])
  | b :: s => if b = byte '-' then (true, s) else if b = byte '+' then (false, s) else (false, b :: s)

/-- An optional sign and one or more decimal digits, within the range of an integer. -/
def readInt? (s : Bytes) : Option Int64 :=
  let (negative, digits) := splitSign s
  if digits ≠ [] ∧ digits.all isDigit then
    let n := ofDigits digits
    if negative then (if n ≤ Nat.pow 2 63 then some (Int64.ofInt (-(n : Int))) else none)
    else if n < Nat.pow 2 63 then some (Int64.ofNat n)
    else none
  else none

end ExprLang.Number
