import ExprLang.Number.Nearest
import ExprLang.Text.Bytes

/-!
# Shortest float text

A float is shown as the decimal with the fewest digits that reads back as the same float, the
nearest of them if there are several, always in positional notation and with a fractional part.

Fewest digits means the coarsest grid: going down the powers of ten, the first one with a multiple
that reads back. Only the two multiples next to the float can, and on the grid of 10⁻¹⁰⁷⁴ the float
itself is a multiple.
-/

namespace ExprLang.Number

/-- The bits of a float without its sign. -/
def magnitudeBits (x : Float) : Nat := x.toBits.toNat % Nat.pow 2 63

def isNegative (x : Float) : Bool := decide (Nat.pow 2 63 ≤ x.toBits.toNat)

/-- A finite magnitude, counted in units of 2⁻¹⁰⁷⁴. -/
def unitsOf (bits : Nat) : Nat :=
  let exponent := bits / Nat.pow 2 52
  let fraction := bits % Nat.pow 2 52
  if exponent = 0 then fraction else (Nat.pow 2 52 + fraction) * Nat.pow 2 (exponent - 1)

/-- The multiple of ten to the `exponent` next to a magnitude that reads back as it: the nearer
one if both do, the even one if they are equally near. -/
def onGrid? (bits : Nat) (exponent : Int) : Option Decimal :=
  let units := unitsOf bits
  let (num, den) : Nat × Nat :=
    match exponent with
    | .ofNat e => (units, Nat.pow 2 1074 * Nat.pow 10 e)
    | .negSucc e => (units * Nat.pow 10 (e + 1), Nat.pow 2 1074)
  let below : Decimal := ⟨num / den, exponent⟩
  let above : Decimal := ⟨num / den + 1, exponent⟩
  match decide (below.nearestBits = bits), decide (above.nearestBits = bits) with
  | true, true => some ⟨divEven num den, exponent⟩
  | true, false => some below
  | false, true => some above
  | false, false => none

/-- The first grid with a hit, from ten to the `exponent` down over `fuel` grids. -/
def coarsest (bits : Nat) : Nat → Int → Decimal
  | 0, _ => ⟨unitsOf bits * Nat.pow 5 1074, -1074⟩
  | fuel + 1, exponent =>
    match onGrid? bits exponent with
    | some d => d
    | none => coarsest bits fuel (exponent - 1)

/-- The decimal with the fewest digits that reads back as a finite magnitude. -/
def shortest (bits : Nat) : Decimal :=
  if bits = 0 then ⟨0, 0⟩
  else
    let top := (Text.decimal (unitsOf bits / Nat.pow 2 1074)).length
    coarsest bits (top + 1074) top

/-- Positional notation with at least one digit on each side of the point. -/
def Decimal.text (d : Decimal) : Bytes :=
  match d.exponent with
  | .ofNat e => Text.decimal (d.coefficient * Nat.pow 10 e) ++ bytes ".0"
  | .negSucc e =>
    let places := e + 1
    let digits := Text.decimal d.coefficient
    let padded := List.replicate (places + 1 - digits.length) (byte '0') ++ digits
    padded.take (padded.length - places) ++ byte '.' :: padded.drop (padded.length - places)

def floatText (x : Float) : Bytes :=
  let bits := magnitudeBits x
  if infinityBits < bits then bytes "NaN"
  else if bits = infinityBits then (if isNegative x then bytes "-Inf" else bytes "+Inf")
  else if isNegative x then byte '-' :: (shortest bits).text
  else (shortest bits).text

end ExprLang.Number
