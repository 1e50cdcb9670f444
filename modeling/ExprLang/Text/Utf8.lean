import ExprLang.Text.Bytes

/-!
# UTF-8

A text starts with a character exactly when it starts with that character's encoding, so overlong
forms, surrogates, values above U+10FFFF and truncated sequences are no characters. A byte that
starts none stands for U+FFFD on its own.
-/

namespace ExprLang.Text.Utf8

def encode (c : Char) : Bytes := String.utf8EncodeChar c

/-- The character that stands for a malformed byte. -/
def replacement : Char := Char.ofNat 0xFFFD

/-- How many bytes a sequence starting with `b` takes. -/
def width (b : UInt8) : Nat :=
  if b < 0xC0 then 1 else if b < 0xE0 then 2 else if b < 0xF0 then 3 else 4

/-- The payload bits of a first byte, given the width it announces. -/
def leadBits (w : Nat) (b : UInt8) : Nat :=
  if w = 1 then b.toNat else b.toNat % Nat.pow 2 (7 - w)

/-- The number spelled by a sequence of the given width, six bits for each byte after the first. -/
def number (w : Nat) : Bytes → Nat
  | [] => 0
  | b :: rest => rest.foldl (fun n c => n * 64 + c.toNat % 64) (leadBits w b)

/-- The first character of a text and the text after it. -/
def decode? (s : Bytes) : Option (Char × Bytes) :=
  match s with
  | [] => none
  | b :: _ =>
    let w := width b
    let c := Char.ofNat (number w (s.take w))
    if encode c = s.take w then some (c, s.drop w) else none

/-- A text starts with the encoding of its first character. -/
theorem decode?_eq_some {s rest : Bytes} {c : Char} (h : decode? s = some (c, rest)) :
    s = encode c ++ rest := by
  cases s with
  | nil => simp [decode?] at h
  | cons b s =>
    simp only [decode?] at h
    split at h
    · rename_i he
      simp only [Option.some.injEq, Prod.mk.injEq] at h
      obtain ⟨hc, hr⟩ := h
      rw [← hc, he, ← hr, List.take_append_drop]
    · cases h

/-- The characters of a text of at most `fuel` bytes. -/
def charsUpTo : Nat → Bytes → List Char
  | 0, _ => []
  | _ + 1, [] => []
  | fuel + 1, b :: s =>
    match decode? (b :: s) with
    | some (c, rest) => c :: charsUpTo fuel rest
    | none => replacement :: charsUpTo fuel s

/-- The characters of a text, malformed bytes as U+FFFD. -/
def chars (s : Bytes) : List Char := charsUpTo s.length s

/-- Whether a text of at most `fuel` bytes consists of characters. -/
def isValidUpTo : Nat → Bytes → Bool
  | _, [] => true
  | 0, _ => false
  | fuel + 1, s =>
    match decode? s with
    | some (_, rest) => isValidUpTo fuel rest
    | none => false

/-- Whether a text consists of characters only. -/
def isValid (s : Bytes) : Bool := isValidUpTo s.length s

end ExprLang.Text.Utf8
