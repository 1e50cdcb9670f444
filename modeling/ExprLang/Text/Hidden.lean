import ExprLang.Text.Printable
import ExprLang.Text.Utf8

/-!
# Hidden characters

The code points of Unicode 17.0 that neither show nor separate: control, format, private-use and
unassigned ones. They are what the printable characters and the separators leave.
-/

namespace ExprLang.Text

/-- The code points of the space, line and paragraph separators. -/
def separatorRanges : List (Nat × Nat) := [
  (0x20, 0x20), (0xa0, 0xa0), (0x1680, 0x1680), (0x2000, 0x200a), (0x2028, 0x2029),
  (0x202f, 0x202f), (0x205f, 0x205f), (0x3000, 0x3000)]

def isSeparator (c : Char) : Bool :=
  separatorRanges.any fun r => r.1 ≤ c.toNat && c.toNat ≤ r.2

def isHidden (c : Char) : Bool := !isPrintable c && !isSeparator c

def hasHidden (s : Bytes) : Bool := (Utf8.chars s).any isHidden

end ExprLang.Text
