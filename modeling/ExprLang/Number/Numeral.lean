import ExprLang.Number.Integer
import ExprLang.Number.Nearest

/-!
# Float numerals

A numeral is an optional sign followed by a decimal (digits with at most one point, then an
optional exponent after `e`) or by `0x` and a hexadecimal (hexadecimal digits with at most one
point, then a binary exponent after `p`, which is required). Underscores may stand between digits
and after `0x`. Letters may be of either case. There are also names for infinity and for the value
that is not a number. A numeral is rounded to the nearest float, and one too large for that is
refused.
-/

namespace ExprLang.Number

def lowerByte (b : UInt8) : UInt8 := if byte 'A' ≤ b && b ≤ byte 'Z' then b + 32 else b

def hexValue? (b : UInt8) : Option Nat :=
  let l := lowerByte b
  if isDigit b then some (b.toNat - 48)
  else if byte 'a' ≤ l && l ≤ byte 'f' then some (l.toNat - 87)
  else none

/-- The value of a digit in base 10 or 16. -/
def digitValue? (hex : Bool) (b : UInt8) : Option Nat :=
  if hex then hexValue? b else if isDigit b then some (b.toNat - 48) else none

/-- What the character before an underscore or the end of the numeral was. -/
inductive Previous
  | start
  | digit
  | underscore
  | other
  deriving DecidableEq

/-- Every underscore follows a digit and is followed by one. -/
def underscoresBetweenDigits (hex : Bool) : Previous → Bytes → Bool
  | previous, [] => previous != .underscore
  | previous, b :: s =>
    if (digitValue? hex b).isSome then underscoresBetweenDigits hex .digit s
    else if b = byte '_' then previous == .digit && underscoresBetweenDigits hex .underscore s
    else previous != .underscore && underscoresBetweenDigits hex .other s

/-- A base letter after a leading zero counts as a digit here. -/
def underscoresOk (unsigned : Bytes) : Bool :=
  match unsigned with
  | z :: l :: s =>
    if z = byte '0' ∧ [byte 'b', byte 'o', byte 'x'].contains (lowerByte l) then
      underscoresBetweenDigits (lowerByte l = byte 'x') .digit s
    else underscoresBetweenDigits false .start unsigned
  | _ => underscoresBetweenDigits false .start unsigned

/-- The digits at the start of a text, as a coefficient, their number and the number of them after
a point. The counters start from what was read before. -/
structure Mantissa where
  coefficient : Nat
  digits : Nat
  places : Nat
  rest : Bytes

def readMantissa (hex : Bool) : Bool → Nat → Nat → Nat → Bytes → Mantissa
  | _, n, digits, places, [] => ⟨n, digits, places, []⟩
  | seenPoint, n, digits, places, b :: s =>
    match digitValue? hex b with
    | some d =>
      readMantissa hex seenPoint (n * (if hex then 16 else 10) + d) (digits + 1)
        (if seenPoint then places + 1 else places) s
    | none =>
      if b = byte '.' ∧ seenPoint = false then readMantissa hex true n digits places s
      else ⟨n, digits, places, b :: s⟩

/-- Digits of an exponent are read up to this value; what follows once it is reached does not
count. -/
def exponentLimit : Nat := 10000

def exponentOfDigits (digits : Bytes) : Nat :=
  digits.foldl (fun n b => if n < exponentLimit then 10 * n + (b.toNat - 48) else n) 0

/-- The exponent that ends a numeral, after the letter that announces it. -/
def readExponent? (letter : Char) : Bytes → Option Int
  | [] => none
  | b :: s =>
    let (negative, digits) := splitSign s
    if lowerByte b = byte letter ∧ digits ≠ [] ∧ digits.all isDigit then
      let n : Int := exponentOfDigits digits
      some (if negative then -n else n)
    else none

/-- The bits of the float nearest to a decimal with this many digits, far exponents settled without
computing the power. -/
def decimalBits? (m : Mantissa) (exponent : Int) : Option Nat :=
  let d : Decimal := ⟨m.coefficient, exponent - m.places⟩
  if d.coefficient = 0 then some 0
  else if d.exponent > 400 then none
  else if d.exponent + m.digits < -400 then some 0
  else some d.nearestBits

def binaryBits (m : Mantissa) (exponent : Int) : Nat :=
  match exponent - 4 * (m.places : Int) with
  | .ofNat e => nearestBits (m.coefficient * Nat.pow 2 e) 1
  | .negSucc e => nearestBits m.coefficient (Nat.pow 2 (e + 1))

def decimalNumeral? (s : Bytes) : Option Nat :=
  let m := readMantissa false false 0 0 0 s
  if m.digits = 0 then none
  else if m.rest = [] then decimalBits? m 0
  else (readExponent? 'e' m.rest).bind (decimalBits? m)

def hexNumeral? (s : Bytes) : Option Nat :=
  let m := readMantissa true false 0 0 0 s
  if m.digits = 0 then none else (readExponent? 'p' m.rest).map (binaryBits m)

def magnitude? (s : Bytes) : Option Nat :=
  match s with
  | z :: x :: c :: rest =>
    if z = byte '0' ∧ lowerByte x = byte 'x' then hexNumeral? (c :: rest) else decimalNumeral? s
  | _ => decimalNumeral? s

/-- Read a numeral; `none` if it is malformed or too large. -/
def readFloat? (s : Bytes) : Option Float :=
  let (negative, unsigned) := splitSign s
  let word := unsigned.map lowerByte
  if word = bytes "inf" ∨ word = bytes "infinity" then
    some (ofMagnitude negative infinityBits)
  else if s.map lowerByte = bytes "nan" then some notANumber
  else if s.contains (byte '_') ∧ underscoresOk unsigned = false then none
  else
    match magnitude? (unsigned.filter (· ≠ byte '_')) with
    | some bits => if bits < infinityBits then some (ofMagnitude negative bits) else none
    | none => none

end ExprLang.Number
