import ExprLang.Number.Numeral
import ExprLang.Yaml.Basic

/-!
# Tags

The tag of a node says what kind of value it stands for. A plain scalar without a tag is text,
unless it spells the empty value, a truth value, a number or a point in time.
-/

namespace ExprLang.Yaml

inductive Tag
  | null | bool | int | float | timestamp | text | binary | merge | list | mapping
  | other (name : Bytes)
  deriving DecidableEq, Repr

namespace Tag

def name : Tag → Bytes
  | .null => bytes "!!null"
  | .bool => bytes "!!bool"
  | .int => bytes "!!int"
  | .float => bytes "!!float"
  | .timestamp => bytes "!!timestamp"
  | .text => bytes "!!str"
  | .binary => bytes "!!binary"
  | .merge => bytes "!!merge"
  | .list => bytes "!!seq"
  | .mapping => bytes "!!map"
  | .other name => name

def known : List Tag :=
  [.null, .bool, .int, .float, .timestamp, .text, .binary, .merge, .list, .mapping]

/-- Where the tags of this kind of document are defined. -/
def home : Bytes := bytes "tag:yaml.org,2002:"

/-- A tag from its full name. -/
def ofName (full : Bytes) : Tag :=
  let short := if home.isPrefixOf full then bytes "!!" ++ full.drop home.length else full
  (known.find? fun t => t.name = short).getD (.other short)

end Tag

def nullWords : List Bytes := [[], bytes "~", bytes "null", bytes "Null", bytes "NULL"]

def trueWords : List Bytes := [bytes "true", bytes "True", bytes "TRUE"]

def falseWords : List Bytes := [bytes "false", bytes "False", bytes "FALSE"]

/-- Infinities and the value that is not a number. -/
def floatWords : List Bytes :=
  [bytes ".nan", bytes ".NaN", bytes ".NAN"] ++
    [[], bytes "+", bytes "-"].flatMap fun sign =>
      [sign ++ bytes ".inf", sign ++ bytes ".Inf", sign ++ bytes ".INF"]

/-! ## Numbers -/

/-- The base of an unsigned integer and its digits. A leading zero means octal. -/
def splitBase (s : Bytes) : Nat × Bytes :=
  match s with
  | z :: b :: d :: rest =>
    let l := Number.lowerByte b
    if z ≠ byte '0' then (10, s)
    else if l = byte 'x' then (16, d :: rest)
    else if l = byte 'o' then (8, d :: rest)
    else if l = byte 'b' then (2, d :: rest)
    else (8, b :: d :: rest)
  | z :: rest => if z = byte '0' then (8, rest) else (10, s)
  | [] => (10, s)

/-- The number spelled by digits in a base. -/
def digitsValue? (base : Nat) : Bytes → Option Nat :=
  List.foldlM (fun n b =>
    match Number.hexValue? b with
    | some d => if d < base then some (n * base + d) else none
    | none => none) 0

/-- The integer that a text without underscores spells, whatever its size. -/
def intValue? (s : Bytes) : Option Int := do
  let (negative, unsigned) := Number.splitSign s
  if unsigned.isEmpty then none
  let (base, digits) := splitBase unsigned
  let n : Int ← digitsValue? base digits
  return if negative then -n else n

/-- The integer spelled with a sign between the letter of its base and its digits. -/
def signedAfterBase? (s : Bytes) : Option Int := do
  let base ← [(bytes "0b", 2), (bytes "0o", 8)].lookup (s.take 2)
  let digits := s.drop 2
  let (negative, unsigned) := Number.splitSign digits
  if unsigned.isEmpty ∨ unsigned = digits then none
  let n : Int ← digitsValue? base unsigned
  return if negative then -n else n

/-- Whether an integer fits into 64 bits with a sign. -/
def isSmall (n : Int) : Bool := -(Nat.pow 2 63 : Int) ≤ n && n < (Nat.pow 2 63 : Int)

/-- Whether a text without underscores spells an integer of 64 bits with a sign. -/
def isSignedInt (s : Bytes) : Bool :=
  (intValue? s).any isSmall || (signedAfterBase? s).any isSmall

/-- Whether a text without underscores spells an integer of 64 bits without a sign. -/
def isUnsignedInt (s : Bytes) : Bool :=
  (Number.splitSign s).2 = s && (intValue? s).any fun n => n < (Nat.pow 2 64 : Int)

def dropDigits (s : Bytes) : Bytes := s.dropWhile Number.isDigit

def startsWithDigit (s : Bytes) : Bool := s.head?.any Number.isDigit

def dropSign (s : Bytes) : Bytes := (Number.splitSign s).2

/-- An exponent or nothing. -/
def isExponentOrEmpty : Bytes → Bool
  | [] => true
  | e :: s =>
    Number.lowerByte e = byte 'e' && startsWithDigit (dropSign s) &&
      (dropDigits (dropSign s)).isEmpty

/-- Digits with at most one point and an optional exponent. A point at the start needs a digit
after it. -/
def isDecimal (s : Bytes) : Bool :=
  let unsigned := dropSign s
  match dropDigits unsigned with
  | p :: rest =>
    if p = byte '.' then
      (startsWithDigit unsigned || startsWithDigit rest) && isExponentOrEmpty (dropDigits rest)
    else startsWithDigit unsigned && isExponentOrEmpty (p :: rest)
  | [] => startsWithDigit unsigned

def isFloat (s : Bytes) : Bool := isDecimal s && (Number.readFloat? s).isSome

/-! ## Points in time -/

/-- A number of one or two digits, and what follows. -/
def shortNumber? (s : Bytes) : Option (Nat × Bytes) :=
  let digits := (s.take 2).takeWhile Number.isDigit
  if digits.isEmpty then none else some (Number.ofDigits digits, s.drop digits.length)

def expect? (c : Char) (s : Bytes) : Option Bytes :=
  if s.head? = some (byte c) then some (s.drop 1) else none

def daysIn (year month : Nat) : Nat :=
  if month = 2 then
    if year % 4 = 0 ∧ (year % 100 ≠ 0 ∨ year % 400 = 0) then 29 else 28
  else if [4, 6, 9, 11].contains month then 30
  else 31

/-- Drop a date: a year of four digits, a month and a day. -/
def dropDate? (s : Bytes) : Option Bytes := do
  let year := s.takeWhile Number.isDigit
  if year.length ≠ 4 then none
  let s ← expect? '-' (s.drop 4)
  let (month, s) ← shortNumber? s
  let s ← expect? '-' s
  let (day, s) ← shortNumber? s
  if 1 ≤ month ∧ month ≤ 12 ∧ 1 ≤ day ∧ day ≤ daysIn (Number.ofDigits year) month then some s
  else none

/-- Drop a fraction of a second, if there is one. -/
def dropFraction (s : Bytes) : Bytes :=
  match s with
  | p :: rest =>
    if (p = byte '.' ∨ p = byte ',') ∧ startsWithDigit rest then dropDigits rest else s
  | [] => []

def dropTime? (s : Bytes) : Option Bytes := do
  let (hour, s) ← shortNumber? s
  let s ← expect? ':' s
  let (minute, s) ← shortNumber? s
  let s ← expect? ':' s
  let (second, s) ← shortNumber? s
  if hour < 24 ∧ minute < 60 ∧ second < 60 then some (dropFraction s) else none

/-- A time zone: `Z` or an offset in hours and minutes. -/
def isZone (s : Bytes) : Bool :=
  match s with
  | [z] => z = byte 'Z'
  | [sign, h1, h2, colon, m1, m2] =>
    (sign = byte '+' || sign = byte '-') && colon = byte ':' &&
      [h1, h2, m1, m2].all Number.isDigit &&
      Number.ofDigits [h1, h2] ≤ 24 && Number.ofDigits [m1, m2] ≤ 60
  | _ => false

/-- A date, or a date and a time: after `T` with a time zone, after blanks without. -/
def isTimestamp (s : Bytes) : Bool :=
  match dropDate? s with
  | none => false
  | some [] => true
  | some (b :: rest) =>
    if b = byte 'T' ∨ b = byte 't' then (dropTime? rest).any isZone
    else b = byte ' ' && (dropTime? (rest.dropWhile (· = byte ' '))).any List.isEmpty

/-! ## Plain scalars -/

/-- What a plain scalar stands for. A point in time counts only if `times` holds. -/
def plainTagWith (times : Bool) (s : Bytes) : Tag :=
  if nullWords.contains s then .null
  else if trueWords.contains s || falseWords.contains s then .bool
  else if floatWords.contains s then .float
  else
    match s.head? with
    | none => .null
    | some b =>
      if b = byte '.' then if (Number.readFloat? s).isSome then .float else .text
      else if Number.isDigit b || b = byte '+' || b = byte '-' then
        let plain := s.filter (· ≠ byte '_')
        if times && isTimestamp s then .timestamp
        else if isSignedInt plain || isUnsignedInt plain then .int
        else if isFloat plain then .float
        else .text
      else .text

def plainTag (s : Bytes) : Tag := plainTagWith true s

end ExprLang.Yaml
