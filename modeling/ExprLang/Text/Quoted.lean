import ExprLang.Text.Utf8
import ExprLang.Text.Printable

/-!
# Quoted texts

A text between double quotes on one line. Quotes and backslashes are escaped, printable characters
stand for themselves, the usual control characters have their letter, and everything else is
written as a number: malformed bytes and other ASCII controls as two hexadecimal digits, other code
points as four or eight.
-/

namespace ExprLang.Text

def hexDigit (n : Nat) : UInt8 := byte (Nat.digitChar (n % 16))

/-- The last `width` hexadecimal digits of a number. -/
def hexDigits : Nat → Nat → Bytes
  | 0, _ => []
  | width + 1, n => hexDigits width (n / 16) ++ [hexDigit n]

/-- The letter that stands for a control character after a backslash. -/
def escapeLetter? (c : Char) : Option Char :=
  [('\x07', 'a'), ('\x08', 'b'), ('\x0c', 'f'), ('\n', 'n'), ('\r', 'r'), ('\t', 't'),
    ('\x0b', 'v')].lookup c

def quoteChar (c : Char) : Bytes :=
  if c = '"' ∨ c = '\\' then byte '\\' :: Utf8.encode c
  else if isPrintable c then Utf8.encode c
  else match escapeLetter? c with
    | some l => [byte '\\', byte l]
    | none =>
      if c.toNat < 0x20 ∨ c.toNat = 0x7F then bytes "\\x" ++ hexDigits 2 c.toNat
      else if c.toNat < 0x10000 then bytes "\\u" ++ hexDigits 4 c.toNat
      else bytes "\\U" ++ hexDigits 8 c.toNat

/-- The quoted form of a text of at most `fuel` bytes, without the enclosing quotes. -/
def quoteUpTo : Nat → Bytes → Bytes
  | 0, _ => []
  | _ + 1, [] => []
  | fuel + 1, b :: s =>
    match Utf8.decode? (b :: s) with
    | some (c, rest) => quoteChar c ++ quoteUpTo fuel rest
    | none => bytes "\\x" ++ hexDigits 2 b.toNat ++ quoteUpTo fuel s

def quote (s : Bytes) : Bytes := byte '"' :: quoteUpTo s.length s ++ [byte '"']

end ExprLang.Text
