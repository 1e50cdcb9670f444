import ExprLang.Token.Basic
import ExprLang.Number.Integer

/-!
# Pieces of a text

A text is cut from left to right into pieces, each the longest the rules allow: a token, one blank,
one stray character, or a string that is never closed and takes the rest. The pieces concatenate to
the text.
-/

namespace ExprLang

inductive Piece
  | token (kind : TokenKind) (lexeme : Bytes) (payload : Option Payload)
  | blank (b : UInt8)
  | stray (c : Char) (text : Bytes)
  | unclosed (text : Bytes)
  deriving DecidableEq, Repr

namespace Piece

def text : Piece → Bytes
  | .token _ lexeme _ => lexeme
  | .blank b => [b]
  | .stray _ text => text
  | .unclosed text => text

/-! ## Character classes -/

def isBlank (b : UInt8) : Bool := b == byte ' ' || b == byte '\r' || b == byte '\t'

def isLetter (b : UInt8) : Bool :=
  (byte 'a' ≤ b && b ≤ byte 'z') || (byte 'A' ≤ b && b ≤ byte 'Z') || b == byte '_'

def isWordByte (b : UInt8) : Bool := isLetter b || Number.isDigit b

/-! ## Tables -/

/-- Operators and punctuation, the longer ones first. -/
def symbols : List (Bytes × TokenKind) := [
  (bytes "!=", .notEqual), (bytes ">=", .greaterEqual), (bytes "<=", .lessEqual),
  (bytes ":=", .assign), (bytes "==", .equal),
  (bytes "(", .leftParen), (bytes ")", .rightParen),
  (bytes "\x7b", .leftBrace), (bytes "\x7d", .rightBrace),
  (bytes "|", .bar), (bytes ",", .comma), (bytes ":", .colon), (bytes ";", .semicolon),
  (bytes "=", .equal), (bytes ">", .greater), (bytes "<", .less),
  (bytes "+", .plus), (bytes "-", .minus), (bytes "/", .slash), (bytes "*", .star),
  (bytes "!", .bang), ([Text.newline], .newline)]

def keywords : List (Bytes × TokenKind) := [
  (bytes "and", .andWord), (bytes "or", .orWord), (bytes "type", .typeWord),
  (bytes "if", .ifWord), (bytes "else", .elseWord), (bytes "true", .trueWord),
  (bytes "false", .falseWord), (bytes "for", .forWord), (bytes "to", .toWord)]

/-! ## One piece -/

def word (w : Bytes) : Piece :=
  let kind := (keywords.lookup w).getD .identifier
  .token kind w <|
    match kind with
    | .trueWord => some (.bool true)
    | .falseWord => some (.bool false)
    | _ => none

/-- A point followed by digits, at the start of a text. -/
def fraction (s : Bytes) : Bytes × Bytes :=
  match s with
  | point :: d :: rest =>
    if point = byte '.' ∧ Number.isDigit d then
      (point :: (d :: rest).takeWhile Number.isDigit, (d :: rest).dropWhile Number.isDigit)
    else ([], s)
  | _ => ([], s)

/-- A number at the start of a text: digits, and a point if digits follow it too. -/
def number (s : Bytes) : Piece × Bytes :=
  let part := fraction (s.dropWhile Number.isDigit)
  let lexeme := s.takeWhile Number.isDigit ++ part.1
  (.token (if part.1 = [] then .int else .float) lexeme (some (.text lexeme)), part.2)

/-- A string, given the text after its opening quote. -/
def string (s : Bytes) : Piece × Bytes :=
  let inner := s.takeWhile (· ≠ byte '"')
  match s.dropWhile (· ≠ byte '"') with
  | [] => (.unclosed (byte '"' :: inner), [])
  | close :: rest => (.token .string (byte '"' :: inner ++ [close]) (some (.text inner)), rest)

/-- An operator or a stray character. -/
def symbol (b : UInt8) (s : Bytes) : Piece × Bytes :=
  match symbols.find? fun e => e.1.isPrefixOf (b :: s) with
  | some (lexeme, kind) => (.token kind lexeme none, (b :: s).drop lexeme.length)
  | none =>
    match Text.Utf8.decode? (b :: s) with
    | some (c, rest) => (.stray c (Text.Utf8.encode c), rest)
    | none => (.stray Text.Utf8.replacement [b], s)

/-- The first piece of a text that starts with `b`, and the text after it. -/
def first (b : UInt8) (s : Bytes) : Piece × Bytes :=
  if isBlank b then (.blank b, s)
  else if b = byte '"' then string s
  else if Number.isDigit b then number (b :: s)
  else if isLetter b then
    (word ((b :: s).takeWhile isWordByte), (b :: s).dropWhile isWordByte)
  else symbol b s

/-- The pieces of a text of at most `fuel` bytes. -/
def splitUpTo : Nat → Bytes → List Piece
  | 0, _ => []
  | _ + 1, [] => []
  | fuel + 1, b :: s => (first b s).1 :: splitUpTo fuel (first b s).2

def split (s : Bytes) : List Piece := splitUpTo s.length s

/-! ## Nothing is lost -/

theorem fraction_append (s : Bytes) : (fraction s).1 ++ (fraction s).2 = s := by
  unfold fraction
  split
  · split <;> simp [List.takeWhile_append_dropWhile]
  · rfl

theorem number_text (s : Bytes) : (number s).1.text ++ (number s).2 = s := by
  simp only [number, text, List.append_assoc, fraction_append, List.takeWhile_append_dropWhile]

theorem string_text (s : Bytes) : (string s).1.text ++ (string s).2 = byte '"' :: s := by
  have h := List.takeWhile_append_dropWhile (p := (· ≠ byte '"')) (l := s)
  simp only [string]
  split
  · rename_i hr
    rw [hr, List.append_nil] at h
    simp only [text, List.append_nil, h]
  · rename_i close rest hr
    rw [hr] at h
    simp only [text, List.append_assoc, List.cons_append, List.nil_append, h]

theorem symbol_text (b : UInt8) (s : Bytes) : (symbol b s).1.text ++ (symbol b s).2 = b :: s := by
  unfold symbol
  split
  · rename_i lexeme kind hf
    have hp := List.find?_some hf
    obtain ⟨t, ht⟩ := List.isPrefixOf_iff_prefix.mp hp
    simp only [text]
    rw [← ht, List.drop_left]
  · split
    · rename_i c rest hd
      simp only [text]
      exact (Text.Utf8.decode?_eq_some hd).symm
    · rfl

theorem first_text (b : UInt8) (s : Bytes) : (first b s).1.text ++ (first b s).2 = b :: s := by
  unfold first
  split
  · rfl
  · split
    · rename_i h
      rw [h]
      exact string_text s
    · split
      · exact number_text (b :: s)
      · split
        · simp [word, text, List.takeWhile_append_dropWhile]
        · exact symbol_text b s

end Piece

end ExprLang
