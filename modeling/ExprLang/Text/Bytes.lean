/-!
# Byte strings

Program text, lexemes, string values and printed lines are byte strings. Nothing requires them to
be well-formed UTF-8; characters appear only where a text is iterated or shown quoted.
-/

namespace ExprLang

abbrev Bytes := List UInt8

/-- The UTF-8 bytes of a text. -/
def bytes (s : String) : Bytes := s.toList.flatMap String.utf8EncodeChar

/-- The byte of an ASCII character. -/
def byte (c : Char) : UInt8 := c.toUInt8

namespace Text

def newline : UInt8 := 10

/-- Decimal digits, without leading zeros. -/
def decimal (n : Nat) : Bytes := (Nat.toDigits 10 n).map byte

def decimalInt : Int → Bytes
  | .ofNat n => decimal n
  | .negSucc n => byte '-' :: decimal (n + 1)

/-- The number of line breaks in a text. -/
def newlines (s : Bytes) : Nat := s.count newline

/-- The parts of `s` between the bytes equal to `b`; there is always at least one. -/
def splitOn (b : UInt8) : Bytes → List Bytes
  | [] => [[]]
  | c :: s =>
    match splitOn b s with
    | [] => [[c]]
    | part :: parts => if c = b then [] :: part :: parts else (c :: part) :: parts

/-- Replace every byte equal to `old`. -/
def replaceByte (old new : UInt8) (s : Bytes) : Bytes :=
  s.map fun c => if c = old then new else c

end Text

end ExprLang
