import ExprLang.Text.Bytes

/-!
# Base 64

Every three bytes are written as four characters, six bits each. A last group of one or two bytes
is filled up with equals signs. Line breaks between the characters do not count.
-/

namespace ExprLang.Text.Base64

def digit? (b : UInt8) : Option Nat :=
  if byte 'A' ≤ b && b ≤ byte 'Z' then some (b.toNat - 65)
  else if byte 'a' ≤ b && b ≤ byte 'z' then some (b.toNat - 71)
  else if byte '0' ≤ b && b ≤ byte '9' then some (b.toNat + 4)
  else if b = byte '+' then some 62
  else if b = byte '/' then some 63
  else none

def filler : UInt8 := byte '='

/-- The three bytes of four digits. -/
def group (a b c d : Nat) : Bytes :=
  let n := ((a * 64 + b) * 64 + c) * 64 + d
  [UInt8.ofNat (n / 65536), UInt8.ofNat (n / 256), UInt8.ofNat n]

/-- Decode groups of four characters. -/
def decodeGroups? : Bytes → Option Bytes
  | [] => some []
  | a :: b :: c :: d :: rest => do
    let x ← digit? a
    let y ← digit? b
    if d = filler ∧ rest = [] then
      if c = filler then some ((group x y 0 0).take 1)
      else return (group x y (← digit? c) 0).take 2
    else
      let last := group x y (← digit? c) (← digit? d)
      return last ++ (← decodeGroups? rest)
  | _ => none

def decode? (s : Bytes) : Option Bytes :=
  decodeGroups? (s.filter fun b => b ≠ byte '\n' && b ≠ byte '\r')

end ExprLang.Text.Base64
