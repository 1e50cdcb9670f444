import ExprLang.Text.Bytes

/-!
# Lines of a stream

A stream is read line by line through a buffer. A line ends with a line feed, which is dropped
together with a carriage return before it; what follows the last line feed is a line too, unless it
is empty. A line that does not fit the buffer comes in pieces.
-/

namespace ExprLang.Text

def bufferSize : Nat := 4096

def carriageReturn : UInt8 := 13

def dropCarriageReturn (line : Bytes) : Bytes :=
  if line.getLast? = some carriageReturn then line.dropLast else line

/-- A line or a piece of one, and what follows it. -/
structure Line where
  text : Bytes
  isWhole : Bool
  rest : Bytes
  deriving DecidableEq, Repr

/-- Read a line. A carriage return at the end of a full buffer is left for the next piece. -/
def nextLine? (s : Bytes) : Option Line :=
  let text := (s.take bufferSize).takeWhile (· != newline)
  if s.isEmpty then none
  else if text.length = bufferSize then
    let piece := dropCarriageReturn text
    some ⟨piece, false, s.drop piece.length⟩
  else
    match s.drop text.length with
    | [] => some ⟨text, true, []⟩
    | _ :: rest => some ⟨dropCarriageReturn text, true, rest⟩

/-- At most `fuel` lines. -/
def linesUpTo : Nat → Bytes → List Line
  | 0, _ => []
  | fuel + 1, s =>
    match nextLine? s with
    | some line => line :: linesUpTo fuel line.rest
    | none => []

def lines (s : Bytes) : List Line := linesUpTo s.length s

end ExprLang.Text
