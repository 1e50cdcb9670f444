import ExprLang.Yaml.Portion

/-!
# Cursors

A cursor stands before a character of a text. What lies ahead is brought into view as far as it is
asked for, and at the end of the text a null character comes into view; the text itself holds none.
Lines and columns are counted from zero.
-/

namespace ExprLang.Yaml

/-! ## Characters -/

/-- What is seen at the end of a text. -/
def ending : Char := Char.ofNat 0

def isBlank (c : Char) : Bool := c = ' ' || c = '\t'

/-- Line breaks that are more than one byte in UTF-8. -/
def isWideBreak (c : Char) : Bool := c.toNat = 0x85 || c.toNat = 0x2028 || c.toNat = 0x2029

def isBreak (c : Char) : Bool := c = '\n' || c = '\r' || isWideBreak c

def isBreakOrEnd (c : Char) : Bool := isBreak c || c = ending

def isSpaceOrEnd (c : Char) : Bool := isBlank c || isBreakOrEnd c

/-- Characters of names. -/
def isNameCharacter (c : Char) : Bool := c.isAlphanum || c = '_' || c = '-'

def byteOrderCharacter : Char := Char.ofNat 0xFEFF

/-! ## Cursors -/

structure Mark where
  /-- The number of characters before. -/
  index : Nat
  line : Nat
  column : Nat
  deriving DecidableEq, Repr

/-- Where a comment stands. -/
inductive CommentPlace
  /-- Above a token, and perhaps set apart from it by an empty line. -/
  | above (isApart : Bool)
  /-- Behind a token on its line. -/
  | behind
  /-- Below a token. -/
  | below
  deriving DecidableEq, Repr

/-- A comment of one or more lines. Of a comment behind a token only the start is known. -/
structure Comment where
  place : CommentPlace
  /-- Where tokens can first have it, as a number of characters. -/
  owner : Nat
  /-- Its start, with columns counted from one unless it is behind a token. -/
  start : Mark
  /-- The number of characters before its end. -/
  stop : Nat
  /-- The number of characters before what was searched for it. -/
  searched : Nat
  deriving DecidableEq, Repr

structure Cursor where
  /-- The characters in view. -/
  ahead : List Char
  feed : Feed
  /-- Whether a byte order mark was ahead when characters last came into view. -/
  marked : Bool
  mark : Mark
  /-- The number of line breaks since the last character that is not blank. -/
  breaks : Nat
  /-- The comments that no token has yet. -/
  comments : List Comment
  /-- A fault that is not reported yet. -/
  doubt : Option Fault
  /-- More than the number of characters of the text. -/
  limit : Nat

def Cursor.ofText (text : Bytes) : Cursor :=
  ⟨[], .ofBytes text, false, ⟨0, 0, 0⟩, 0, [], none, text.length + 8⟩

/-- Reading moves a cursor, also where it fails. -/
abbrev Reading := ExceptT Fault (StateM Cursor)

/-- Whether there are at least `n` characters. -/
def hasLength (n : Nat) (cs : List Char) : Bool := n = 0 || !(cs.drop (n - 1)).isEmpty

/-- Add portions to what is in view until there are `n` characters or the text ends. -/
def Feed.fill (n : Nat) (fault : Option (List Char × Problem)) :
    List Char → List (List Char) → Except (List Char × Problem) (List Char × List (List Char))
  | ahead, [] =>
    match fault with
    | none => .ok (ahead ++ [ending], [])
    | some (cs, problem) => .error (ahead ++ cs, problem)
  | ahead, portion :: portions =>
    let ahead := ahead ++ portion
    if hasLength n ahead then .ok (ahead, portions) else fill n fault ahead portions

def Cursor.filled (c : Cursor) (ahead : List Char) (portions : List (List Char)) : Cursor :=
  { c with ahead, feed := { c.feed with portions }, marked := ahead.head? = some byteOrderCharacter }

namespace Reading

/-- Bring `n` characters into view. -/
def need (n : Nat) : Reading Unit := do
  let c ← get
  if hasLength n c.ahead then return
  match Feed.fill n c.feed.fault c.ahead c.feed.portions with
  | .ok (ahead, portions) => set (c.filled ahead portions)
  | .error (_, problem) => throw (.ofText problem)

/-- Bring `n` characters into view if there is no problem with them; otherwise the problem is kept
for later. -/
def tryNeed (n : Nat) : Reading Bool := do
  let c ← get
  if hasLength n c.ahead then return true
  match Feed.fill n c.feed.fault c.ahead c.feed.portions with
  | .ok (ahead, portions) =>
    set (c.filled ahead portions)
    return true
  | .error (ahead, problem) =>
    set { c with ahead, feed := ⟨[], some ([], problem)⟩, doubt := some (.ofText problem) }
    return false

/-- A character in view. -/
def look (n : Nat) : Reading Char := return ((← get).ahead.drop n).headD ending

def mark : Reading Mark := return (← get).mark

def limit : Reading Nat := return (← get).limit

/-- Move past a character that is no line break. -/
def skip : Reading Unit := modify fun c =>
  { c with
    ahead := c.ahead.drop 1
    mark := ⟨c.mark.index + 1, c.mark.line, c.mark.column + 1⟩
    breaks := if c.ahead.head?.any isBlank then c.breaks else 0 }

/-- Move past `n` characters. -/
def skipMany : Nat → Reading Unit
  | 0 => return
  | n + 1 => do
    skip
    skipMany n

/-- Move past a line break of so many characters. -/
def skipBreakOf (width : Nat) : Reading Unit := modify fun c =>
  { c with
    ahead := c.ahead.drop width
    mark := ⟨c.mark.index + width, c.mark.line + 1, 0⟩
    breaks := c.breaks + 1 }

/-- Move past a line break, if there is one, and return what it stands for. A line break is a line
feed, except for the Unicode line and paragraph separators. -/
def takeBreak : Reading (Option Char) := do
  let c ← look 0
  if !isBreak c then return none
  let isPair := c = '\r' && (← look 1) = '\n'
  skipBreakOf (if isPair then 2 else 1)
  return some (if c.toNat = 0x2028 || c.toNat = 0x2029 then c else '\n')

def skipBreak : Reading Unit := discard takeBreak

/-- Fail with a problem of the token that starts at `start`. -/
def fail {α : Type} (problem : Problem) (start : Mark) : Reading α := do
  throw (.ofToken problem start.line (← mark).line)

/-- Repeat a step while it gives a result, at most `fuel` times. -/
def iterate {σ : Type} (step : σ → Reading (Option σ)) : Nat → σ → Reading σ
  | 0, s => return s
  | fuel + 1, s => do
    match ← step s with
    | some s => iterate step fuel s
    | none => return s

/-- Skip characters of a kind. -/
def skipWhile (p : Char → Bool) : Reading Unit := do
  need 1
  iterate (fun _ => do
    if p (← look 0) then
      skip
      need 1
      return some ()
    else return none) (← limit) ()

/-- Read characters of a kind, after those in `read`, which are given the last first. -/
def takeWhile (p : Char → Bool) (read : List Char) : Reading (List Char) := do
  need 1
  iterate (fun read => do
    let c ← look 0
    if p c then
      skip
      need 1
      return some (c :: read)
    else return none) (← limit) read

/-- Whether a mark between documents stands here. -/
def atDocumentMark (c : Char) : Reading Bool := do
  return (← mark).column = 0 && (← look 0) = c && (← look 1) = c && (← look 2) = c &&
    isSpaceOrEnd (← look 3)

end Reading

end ExprLang.Yaml
