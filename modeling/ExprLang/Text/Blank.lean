import ExprLang.Text.Utf8

/-!
# White space

The code points with the Unicode property White_Space, and texts trimmed of them on both ends.
-/

namespace ExprLang.Text

/-- The encodings of all white-space characters. -/
def blanks : List Bytes :=
  ([0x9, 0xA, 0xB, 0xC, 0xD, 0x20, 0x85, 0xA0, 0x1680, 0x2028, 0x2029, 0x202F, 0x205F, 0x3000] ++
    (List.range 11).map (0x2000 + ·)).map fun n => Utf8.encode (Char.ofNat n)

/-- Drop the white space at the start; `fuel` bounds the number of characters dropped. -/
def trimLeftUpTo : Nat → Bytes → Bytes
  | 0, s => s
  | fuel + 1, s =>
    match blanks.find? fun b => b.isPrefixOf s with
    | some b => trimLeftUpTo fuel (s.drop b.length)
    | none => s

def trimLeft (s : Bytes) : Bytes := trimLeftUpTo s.length s

/-- Drop the white space at the end; `fuel` bounds the number of characters dropped. -/
def trimRightUpTo : Nat → Bytes → Bytes
  | 0, s => s
  | fuel + 1, s =>
    match blanks.find? fun b => b.isSuffixOf s with
    | some b => trimRightUpTo fuel (s.take (s.length - b.length))
    | none => s

def trimRight (s : Bytes) : Bytes := trimRightUpTo s.length s

def trim (s : Bytes) : Bytes := trimRight (trimLeft s)

end ExprLang.Text
