import ExprLang.Number.Numeral
import ExprLang.Yaml.Comment

/-!
# Scalars

The text of a scalar: plain, quoted or a block of lines. Texts are collected with the last
character first.
-/

namespace ExprLang.Yaml

def encodeChars (cs : List Char) : Bytes := cs.flatMap Text.Utf8.encode

/-! ## White space inside scalars -/

/-- White space between the words of a scalar: blanks in a line, or line breaks, the first one
apart. -/
structure Gap where
  blanks : List Char
  isBroken : Bool
  first : Option Char
  more : List Char

namespace Gap

def none : Gap := ⟨[], false, .none, []⟩

/-- A line break that stands for nothing. -/
def escaped : Gap := ⟨[], true, .none, []⟩

def addBlank (c : Char) (g : Gap) : Gap :=
  if g.isBroken then g else { g with blanks := c :: g.blanks }

def addBreak (c : Char) (g : Gap) : Gap :=
  if g.isBroken then { g with more := c :: g.more } else ⟨[], true, some c, []⟩

/-- What a gap stands for: a single line feed for a space, and more for one less. -/
def text (g : Gap) : List Char :=
  if !g.isBroken then g.blanks
  else if g.first = some '\n' then if g.more.isEmpty then [' '] else g.more
  else g.more ++ g.first.toList

end Gap

namespace Reading

/-- Read blanks and line breaks. After a line break `onBlank` is done before each blank. -/
def takeGap (onBlank : Char → Reading Unit) (gap : Gap) : Reading Gap := do
  need 1
  let step (gap : Gap) : Reading (Option Gap) := do
    let c ← look 0
    if isBlank c then
      if gap.isBroken then onBlank c
      skip
      need 1
      return some (gap.addBlank c)
    else if isBreak c then
      need 2
      let c ← takeBreak
      need 1
      return some (gap.addBreak (c.getD '\n'))
    else return none
  iterate step (← limit) gap

/-! ## Plain scalars -/

/-- Whether a plain scalar ends before the character ahead. -/
def endsPlain (inFlow : Bool) : Reading Bool := do
  let c ← look 0
  return isSpaceOrEnd c || (c = ':' && isSpaceOrEnd (← look 1)) ||
    (inFlow && [',', '?', '[', ']', '\x7b', '\x7d'].contains c)

/-- Read a word of a plain scalar, after a gap. -/
def takePlainWord (inFlow : Bool) (text : List Char) (gap : Gap) : Reading (List Char × Gap) := do
  let step (state : List Char × Gap) : Reading (Option (List Char × Gap)) := do
    if ← endsPlain inFlow then return none
    let c ← look 0
    skip
    need 2
    return some (c :: (state.2.text ++ state.1), .none)
  iterate step (← limit) (text, gap)

/-- Read the words of a plain scalar in block style, or in flow style, where lines may be indented
in any way. -/
def takePlainWords (inFlow : Bool) (indent : Nat) (start : Mark) :
    Nat → List Char → Gap → Reading (List Char × Gap)
  | 0, text, gap => return (text, gap)
  | fuel + 1, text, gap => do
    need 4
    if (← atDocumentMark '-') || (← atDocumentMark '.') || (← look 0) = '#' then return (text, gap)
    let (text, gap) ← takePlainWord inFlow text gap
    let c ← look 0
    if !isBlank c && !isBreak c then return (text, gap)
    let refuseTab (c : Char) : Reading Unit := do
      if c = '\t' && (← mark).column < indent then fail .tabInPlain start
    let gap ← takeGap refuseTab gap
    if !inFlow && (← mark).column < indent then return (text, gap)
    takePlainWords inFlow indent start fuel text gap

/-- Read a plain scalar, and whether line breaks follow it. -/
def takePlain (inFlow : Bool) (indent : Nat) : Reading (Bytes × Bool) := do
  let (text, gap) ← takePlainWords inFlow indent (← mark) (← limit) [] .none
  return (encodeChars text.reverse, gap.isBroken)

/-! ## Quoted scalars -/

/-- Escapes of a single character, and the code points they stand for. -/
def escapes : List (Char × Nat) := [
  ('0', 0x0), ('a', 0x7), ('b', 0x8), ('t', 0x9), ('\t', 0x9), ('n', 0xA), ('v', 0xB), ('f', 0xC),
  ('r', 0xD), ('e', 0x1B), (' ', 0x20), ('"', 0x22), ('\'', 0x27), ('\\', 0x5C), ('N', 0x85),
  ('_', 0xA0), ('L', 0x2028), ('P', 0x2029)]

/-- How many hexadecimal digits follow an escape. -/
def escapeDigitCounts : List (Char × Nat) := [('x', 2), ('u', 4), ('U', 8)]

def hexDigit? (c : Char) : Option Nat := if c.toNat < 128 then Number.hexValue? (byte c) else none

/-- The number that hexadecimal digits spell. -/
def hexNumber? : List Char → Option Nat :=
  List.foldlM (fun n c => (hexDigit? c).map (16 * n + ·)) 0

/-- Read a backslash and what follows it. -/
def takeEscape (start : Mark) : Reading Char := do
  let c ← look 1
  match escapes.lookup c, escapeDigitCounts.lookup c with
  | some n, _ =>
    skipMany 2
    return Char.ofNat n
  | none, some count =>
    skipMany 2
    need count
    match hexNumber? ((← get).ahead.take count) with
    | some n =>
      if !decide n.isValidChar then fail .escapeCharacter start
      skipMany count
      return Char.ofNat n
    | none => fail .escapeDigits start
  | none, none => fail .unknownEscape start

/-- Read a word of a quoted scalar. A line break that is escaped ends it too. -/
def takeQuotedWord (quote : Char) (start : Mark) :
    Nat → List Char → Reading (List Char × Gap)
  | 0, text => return (text, .none)
  | fuel + 1, text => do
    let c ← look 0
    let next ← look 1
    if isSpaceOrEnd c then return (text, .none)
    else if c = quote then
      if quote = '\'' && next = quote then
        skipMany 2
        need 2
        takeQuotedWord quote start fuel (c :: text)
      else return (text, .none)
    else if quote = '"' && c = '\\' then
      if isBreak next then
        need 3
        skip
        skipBreak
        return (text, .escaped)
      else
        let c ← takeEscape start
        need 2
        takeQuotedWord quote start fuel (c :: text)
    else
      skip
      need 2
      takeQuotedWord quote start fuel (c :: text)

def takeQuotedWords (quote : Char) (start : Mark) : Nat → List Char → Reading (List Char)
  | 0, _ => fail .unclosedQuote start
  | fuel + 1, text => do
    need 4
    if (← atDocumentMark '-') || (← atDocumentMark '.') then fail .quotedDocumentMark start
    if (← look 0) = ending then fail .unclosedQuote start
    let (text, gap) ← takeQuotedWord quote start (← limit) text
    need 1
    if (← look 0) = quote then return text
    let gap ← takeGap (fun _ => return) gap
    takeQuotedWords quote start fuel (gap.text ++ text)

/-- Read a scalar between quotes. -/
def takeQuoted (quote : Char) : Reading Bytes := do
  let start ← mark
  skip
  let text ← takeQuotedWords quote start (← limit) []
  skip
  return encodeChars text.reverse

end Reading

/-! ## Block scalars -/

/-- What becomes of the line breaks at the end of a block. -/
inductive Chomping
  | strip | clip | keep
  deriving DecidableEq, Repr

namespace Reading

/-- Read a chomping mark, if there is one. -/
def takeChomping : Reading (Option Chomping) := do
  need 1
  let c ← look 0
  if c = '+' || c = '-' then
    skip
    return some (if c = '+' then .keep else .strip)
  else return none

/-- Read an indentation mark; zero if there is none. -/
def takeIncrement (start : Mark) : Reading Nat := do
  need 1
  let c ← look 0
  if !c.isDigit then return 0
  if c = '0' then fail .zeroIndentation start
  skip
  return c.toNat - 48

/-- Read the marks of a block, in either order. -/
def takeBlockMarks (start : Mark) : Reading (Chomping × Nat) := do
  match ← takeChomping with
  | some chomping => return (chomping, ← takeIncrement start)
  | none =>
    let increment ← takeIncrement start
    if increment = 0 then return (.clip, 0)
    return ((← takeChomping).getD .clip, increment)

/-- Skip what may stand on a line after marks or a directive. -/
def skipLineEnd (start : Mark) : Reading Unit := do
  skipWhile isBlank
  if (← look 0) = '#' then skipLine
  if !isBreakOrEnd (← look 0) then fail .lineEnd start
  if isBreak (← look 0) then
    need 2
    skipBreak

/-- Read empty lines and the indentation of the next line: the line breaks and the widest
indentation seen. An `indent` of zero is not known yet. -/
def takeEmptyLines (indent : Nat) (start : Mark) : Nat → List Char → Nat → Reading (List Char × Nat)
  | 0, breaks, widest => return (breaks, widest)
  | fuel + 1, breaks, widest => do
    need 1
    iterate (fun _ => do
      if (indent = 0 || (← mark).column < indent) && (← look 0) = ' ' then
        skip
        need 1
        return some ()
      else return none) (← limit) ()
    let column := (← mark).column
    let widest := max widest column
    if (indent = 0 || column < indent) && (← look 0) = '\t' then fail .tabInBlock start
    if !isBreak (← look 0) then return (breaks, widest)
    need 2
    let c ← takeBreak
    takeEmptyLines indent start fuel (c.toList ++ breaks) widest

/-- The lines of a block read so far. -/
structure BlockText where
  text : List Char
  /-- The break after the last line. -/
  first : Option Char
  /-- The breaks of the empty lines after it. -/
  more : List Char
  /-- Whether the last line starts with a blank. -/
  startsBlank : Bool

/-- What stands between two lines: in a folded block a line feed becomes a space, unless it is
next to an empty line or to a line that starts with a blank. -/
def BlockText.gap (b : BlockText) (folded nextStartsBlank : Bool) : List Char :=
  if folded && !b.startsBlank && !nextStartsBlank && b.first = some '\n' then
    if b.more.isEmpty then [' '] else b.more
  else b.more ++ b.first.toList

/-- Read the lines of a block that are indented by `indent`. -/
def takeBlockLines (folded : Bool) (indent : Nat) (start : Mark) :
    Nat → BlockText → Reading BlockText
  | 0, b => return b
  | fuel + 1, b => do
    need 1
    let c ← look 0
    if (← mark).column ≠ indent || c = ending then return b
    let gap := b.gap folded (isBlank c)
    let text ← takeWhile (fun c => !isBreakOrEnd c) (gap ++ b.text)
    need 2
    let first ← takeBreak
    let (more, _) ← takeEmptyLines indent start (← limit) [] 0
    takeBlockLines folded indent start fuel ⟨text, first, more, isBlank c⟩

/-- Read a block scalar. Its lines are indented as its first line that is not empty, or as the
marks say, and by at least `level`. -/
def takeBlock (level : Nat) : Reading Bytes := do
  let start ← mark
  let folded := (← look 0) = '>'
  skip
  let (chomping, increment) ← takeBlockMarks start
  skipWhile isBlank
  if (← look 0) = '#' then skipLineComment start.index
  skipLineEnd start
  let given := if increment = 0 then 0 else level - 1 + increment
  let (more, widest) ← takeEmptyLines given start (← limit) [] 0
  let indent := if given = 0 then max widest (max level 1) else given
  let b ← takeBlockLines folded indent start (← limit) ⟨[], none, more, false⟩
  let tail := if chomping = .strip then [] else b.first.toList
  let rest := if chomping = .keep then b.more else []
  return encodeChars (rest ++ tail ++ b.text).reverse

end Reading

end ExprLang.Yaml
