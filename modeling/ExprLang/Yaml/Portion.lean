import ExprLang.Text.Utf8
import ExprLang.Yaml.Basic

/-!
# Texts in portions

A text is UTF-8, or UTF-16 if a byte order mark says so. It is read in portions of at most 512
bytes, and a portion is decoded as a whole: a fault in it is found when its first character is
asked for, and a fault in a later portion not before that portion is reached.
-/

namespace ExprLang.Yaml

inductive Encoding
  | utf8
  | utf16 (bigEndian : Bool)
  deriving DecidableEq, Repr

/-- What some bytes start with. -/
inductive Start
  | character (c : Char) (width : Nat)
  /-- The beginning of a character; the problem arises if nothing follows. -/
  | cut (problem : Problem)
  | malformed (problem : Problem)

/-- Control characters are not allowed, except for tabs and line breaks. -/
def isAllowed (n : Nat) : Bool :=
  n = 0x9 || n = 0xA || n = 0xD || (0x20 ≤ n && n ≤ 0x7E) || n = 0x85 ||
    (0xA0 ≤ n && n ≤ 0xFFFD) || 0x10000 ≤ n

/-- A code point read from so many bytes. -/
def Start.ofCodePoint (n width : Nat) : Start :=
  if !decide n.isValidChar then .malformed .invalidCharacter
  else if isAllowed n then .character (Char.ofNat n) width
  else .malformed .controlCharacter

/-! ## UTF-8 -/

/-- How many bytes a character starting with `b` takes; no character starts with other bytes. -/
def announcedWidth? (b : UInt8) : Option Nat :=
  if b < 0x80 then some 1
  else if b < 0xC0 then none
  else if b < 0xE0 then some 2
  else if b < 0xF0 then some 3
  else if b < 0xF8 then some 4
  else none

def isTrailing (b : UInt8) : Bool := 0x80 ≤ b && b < 0xC0

/-- Whether fewer bytes would do for a code point. -/
def isOverlong (width n : Nat) : Bool :=
  (width = 2 && n < 0x80) || (width = 3 && n < 0x800) || (width = 4 && n < 0x10000)

def utf8Start (s : Bytes) : Start :=
  match s with
  | [] => .cut .truncatedCharacter
  | b :: rest =>
    match announcedWidth? b with
    | none => .malformed .leadingByte
    | some w =>
      let trailing := rest.take (w - 1)
      let n := Text.Utf8.number w (b :: trailing)
      if trailing.length < w - 1 then .cut .truncatedCharacter
      else if !trailing.all isTrailing then .malformed .trailingByte
      else if isOverlong w n then .malformed .overlongCharacter
      else .ofCodePoint n w

/-! ## UTF-16 -/

def isHighSurrogate (n : Nat) : Bool := 0xD800 ≤ n && n ≤ 0xDBFF

def isLowSurrogate (n : Nat) : Bool := 0xDC00 ≤ n && n ≤ 0xDFFF

def unitOf (bigEndian : Bool) (a b : UInt8) : Nat :=
  if bigEndian then 256 * a.toNat + b.toNat else 256 * b.toNat + a.toNat

def utf16Start (bigEndian : Bool) (s : Bytes) : Start :=
  match s with
  | a :: b :: rest =>
    let high := unitOf bigEndian a b
    if isLowSurrogate high then .malformed .strayLowSurrogate
    else if isHighSurrogate high then
      match rest with
      | c :: d :: _ =>
        let low := unitOf bigEndian c d
        if isLowSurrogate low then
          .ofCodePoint (0x10000 + 0x400 * (high - 0xD800) + (low - 0xDC00)) 4
        else .malformed .missingLowSurrogate
      | _ => .cut .truncatedPair
    else .ofCodePoint high 2
  | _ => .cut .truncatedUnit

/-! ## Portions -/

namespace Encoding

def start : Encoding → Bytes → Start
  | .utf8, s => utf8Start s
  | .utf16 bigEndian, s => utf16Start bigEndian s

/-- At most `fuel` characters, the bytes after them, and a problem with those. -/
def decodeUpTo (e : Encoding) : Nat → Bytes → List Char × Bytes × Option Problem
  | 0, s => ([], s, none)
  | _ + 1, [] => ([], [], none)
  | fuel + 1, s =>
    match e.start s with
    | .character c width =>
      let (cs, rest) := e.decodeUpTo fuel (s.drop width)
      (c :: cs, rest)
    | .cut _ => ([], s, none)
    | .malformed problem => ([], s, some problem)

/-- Why a text cannot end with the beginning of a character. -/
def cutProblem? (e : Encoding) (s : Bytes) : Option Problem :=
  match s, e.start s with
  | _ :: _, .cut problem => some problem
  | _, _ => none

end Encoding

/-- What is still to be read of a text. -/
structure Feed where
  portions : List (List Char)
  /-- A problem that the text ends with, and the characters before it in its portion. -/
  fault : Option (List Char × Problem)

namespace Feed

def portionSize : Nat := 512

/-- Cut a text into portions, of which the first has at most `size` bytes. The beginning of a
character at the end of a portion goes into the next one. -/
def cutUpTo (e : Encoding) : Nat → Nat → Bytes → Feed
  | 0, _, _ => ⟨[], none⟩
  | _ + 1, _, [] => ⟨[], none⟩
  | fuel + 1, size, s =>
    let (cs, rest, problem?) := e.decodeUpTo size (s.take size)
    let unread := s.drop size
    match problem? with
    | some problem => ⟨[], some (cs, problem)⟩
    | none =>
      if unread.isEmpty then ⟨[cs], (e.cutProblem? rest).map fun problem => ([], problem)⟩
      else
        let feed := cutUpTo e fuel portionSize (rest ++ unread)
        { feed with portions := cs :: feed.portions }

/-- The byte order mark of an encoding. -/
def byteOrderMark : Encoding → Bytes
  | .utf8 => [0xEF, 0xBB, 0xBF]
  | .utf16 bigEndian => if bigEndian then [0xFE, 0xFF] else [0xFF, 0xFE]

/-- Take a text apart; a byte order mark at its start is dropped. -/
def ofBytes (s : Bytes) : Feed :=
  match [Encoding.utf16 false, .utf16 true, .utf8].find? fun e => (byteOrderMark e).isPrefixOf s with
  | some e =>
    let width := (byteOrderMark e).length
    cutUpTo e s.length (portionSize - width) (s.drop width)
  | none => cutUpTo .utf8 s.length portionSize s

end Feed

end ExprLang.Yaml
