/-!
# The nearest float

Floats are the multiples of 2⁻¹⁰⁷⁴ with at most 53 significant bits, so a positive rational is
rounded by counting it in units of 2⁻¹⁰⁷⁴ and dropping all but 53 bits, a tie going to the even
neighbour. The bits of the result are the number of dropped bits in the exponent field plus the
kept ones: the leading kept bit carries into the exponent field, and so does a round-up to the next
power of two.
-/

namespace ExprLang.Number

/-- The integer nearest to a quotient; a tie goes to the even one. -/
def divEven (num den : Nat) : Nat :=
  let q := num / den
  let r := num % den
  if 2 * r < den then q else if den < 2 * r then q + 1 else q + q % 2

/-- The bit pattern of the float nearest to `num / den`, as if the exponent had no upper bound. -/
def nearestBits (num den : Nat) : Nat :=
  let units := num * Nat.pow 2 1074
  let dropped := Nat.log2 (units / den) - 52
  dropped * Nat.pow 2 52 + divEven units (den * Nat.pow 2 dropped)

def infinityBits : Nat := 2047 * Nat.pow 2 52

def infinity : Float := Float.ofBits (UInt64.ofNat infinityBits)

def notANumber : Float := Float.ofBits 0x7FF8000000000000

/-- A float from its sign and the bits of its magnitude. -/
def ofMagnitude (negative : Bool) (bits : Nat) : Float :=
  Float.ofBits (UInt64.ofNat (if negative then Nat.pow 2 63 + bits else bits))

/-- A nonnegative number in positional notation: `coefficient` times ten to the `exponent`. -/
structure Decimal where
  coefficient : Nat
  exponent : Int
  deriving DecidableEq, Repr

namespace Decimal

/-- The bit pattern of the float nearest to a decimal. -/
def nearestBits (d : Decimal) : Nat :=
  match d.exponent with
  | .ofNat e => Number.nearestBits (d.coefficient * Nat.pow 10 e) 1
  | .negSucc e => Number.nearestBits d.coefficient (Nat.pow 10 (e + 1))

end Decimal

end ExprLang.Number
