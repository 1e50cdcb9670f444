import ExprLang.Yaml.Cursor

/-!
# Comments

Comments are skipped with the white space between tokens. Which token a comment belongs to is noted
because the end of a block is placed at the comments that are indented like the block.
-/

namespace ExprLang.Yaml.Reading

/-- How far ahead a comment is looked for. -/
def commentDistance : Nat := 512

def addComment (c : Comment) : Reading Unit := modify fun s =>
  { s with comments := s.comments ++ [c] }

/-! ## Comments behind a token -/

/-- The distance of a comment that follows on the line. -/
def commentAhead? : Nat → Nat → Reading (Option Nat)
  | 0, _ => return none
  | fuel + 1, n => do
    if !(← tryNeed (n + 1)) then return none
    let c ← look n
    if isBlank c then commentAhead? fuel (n + 1)
    else if c = '#' then return some n
    else return none

/-- Skip the rest of the line. -/
def skipLine : Reading Unit := skipWhile fun c => !isBreakOrEnd c

/-- Skip a comment behind a token on its line. -/
def skipLineComment (owner : Nat) : Reading Unit := do
  if (← get).breaks = 0 then
    match ← commentAhead? commentDistance 0 with
    | some n =>
      skipMany n
      let start ← mark
      skipLine
      addComment ⟨.behind, owner, start, 0, 0⟩
    | none => return

/-! ## Comments between tokens -/

/-- What comes before a search for tokens. -/
structure Surroundings where
  inFlow : Bool
  /-- The least column of what belongs to the block collection around. -/
  level : Nat
  /-- The number of characters before the last token. -/
  lastToken : Nat
  /-- Whether the last token is the colon of a value. -/
  afterValue : Bool
  /-- Whether the last token is the dash that starts a block list. -/
  afterFirstDash : Bool

/-- A search for comments. -/
structure CommentSearch where
  /-- The distance of the character that is looked at next. -/
  distance : Nat
  line : Nat
  column : Nat
  /-- Whether no empty line has been seen. -/
  isFirstGap : Bool
  /-- Whether the line before is empty. -/
  afterGap : Bool
  /-- The start of the comment that is being read, and whether an empty line follows it. -/
  current : Option (Mark × Bool)
  owner : Nat
  searched : Nat

namespace CommentSearch

/-- Whether a comment is indented less than the block around. -/
def isDedented (w : Surroundings) (column : Nat) : Bool := column ≤ w.level - 1

/-- End the comment that is being read; it belongs to what is above it. -/
def endBelow (s : CommentSearch) (owner : Nat) : Reading CommentSearch := do
  match s.current with
  | none => return s
  | some (start, _) =>
    let here := (← mark).index + s.distance
    addComment ⟨.below, owner, start, here, s.searched⟩
    return { s with current := none, owner := here, searched := here }

/-- Handle the end of a line without a comment, or of a flow collection. The first empty line ends
a comment that stands below a token, and one that is dedented. -/
def atGap (w : Surroundings) (footLine : Option Nat) (closes : Bool) (c : Char)
    (s : CommentSearch) : Reading CommentSearch := do
  match s.current with
  | none => return s
  | some (start, _) =>
    if s.afterGap && !closes then return s
    else if closes || (s.isFirstGap &&
        ((some start.line = footLine && !w.afterValue) || isDedented w start.column)) then
      s.endBelow (if isDedented w start.column then start.index else s.owner)
    else if c = ending then return s
    else return { s with current := some (start, true) }

/-- Handle something other than white space. A comment that was dedented, unlike this, is over. -/
def atText (w : Surroundings) (s : CommentSearch) : Reading CommentSearch := do
  match s.current with
  | none => return s
  | some (start, _) =>
    if isDedented w s.column && s.column ≠ start.column then s.endBelow s.owner else return s

/-- Handle what follows a line break. A wide one hides the line below it, which is taken for text,
and ends the search. -/
def atNextLine (w : Surroundings) (isWide : Bool)
    (next : CommentSearch → Reading CommentSearch) (s : CommentSearch) :
    Reading CommentSearch := do
  if !isWide then next s
  else if commentDistance ≤ s.distance then return s
  else if ← tryNeed (s.distance + 1) then atText w { s with column := 1 }
  else return s

end CommentSearch

/-- Skip lines up to the character with the given index, and the rest of its line. -/
def skipLinesTo (index : Nat) : Reading Unit := do
  iterate (fun _ => do
    need 1
    if !isBreakOrEnd (← look 0) then
      skip
      return some ()
    else if (← mark).index < index then
      need 2
      skipBreak
      return some ()
    else return none) (← limit) ()

/-- Skip comments, each to the end of its line, with the blanks and line breaks between them. -/
def skipCommentsFrom (w : Surroundings) (footLine : Option Nat) :
    Nat → CommentSearch → Reading CommentSearch
  | 0, s => return s
  | fuel + 1, s => do
    if commentDistance ≤ s.distance then return s
    if !(← tryNeed (s.distance + 1)) then return s
    let c ← look s.distance
    let s := { s with column := s.column + 1 }
    let closes := w.inFlow && (c = ']' || c = '\x7d')
    if isBlank c then skipCommentsFrom w footLine fuel { s with distance := s.distance + 1 }
    else if closes || isBreakOrEnd c then
      let s ← s.atGap w footLine closes c
      if !isBreak c then return s
      CommentSearch.atNextLine w (isWideBreak c) (skipCommentsFrom w footLine fuel) { s with
        distance := s.distance + 1
        line := s.line + 1
        column := 0
        isFirstGap := false
        afterGap := true }
    else
      let s ← s.atText w
      if c ≠ '#' then return s
      let start : Mark := ⟨(← mark).index + s.distance, s.line, s.column⟩
      let current := (s.current.map (·.1)).getD start
      skipLinesTo start.index
      let isWide := isWideBreak (← look 0)
      CommentSearch.atNextLine w isWide (skipCommentsFrom w footLine fuel) { s with
        distance := 1
        line := (← mark).line
        column := 0
        afterGap := false
        current := some (current, false) }

/-- The line on which a comment stands directly below a token. -/
def footLine? (origin : Mark) (c : Cursor) : Option Nat :=
  if origin.line = 0 then none
  else some (c.mark.line - c.breaks + (if c.breaks = 0 && 1 < c.mark.column then 2 else 1))

/-- Skip comments and note what they belong to. -/
def skipComments (w : Surroundings) (origin : Mark) : Reading Unit := do
  let c ← get
  let s ← skipCommentsFrom w (footLine? origin c) (commentDistance * c.limit)
    ⟨0, c.mark.line, c.mark.column, c.breaks ≤ 1, false, none, w.lastToken, origin.index⟩
  match s.current with
  | none => return
  | some (start, isApart) =>
    addComment ⟨.above isApart, start.index, start, (← mark).index + s.distance - 1, s.searched⟩

/-! ## White space between tokens -/

/-- A comment behind the dash that starts a list stands above what follows in the list. -/
def raiseComment (w : Surroundings) : Reading Unit := modify fun c =>
  match c.comments.reverse with
  | last :: before =>
    if w.afterFirstDash && last.place = .behind && !isBreak (c.ahead.headD ending) then
      let owner := if last.start.line + 1 = c.mark.line then c.mark.index else last.owner
      { c with comments := ({ last with place := .above false, owner } :: before).reverse }
    else c
  | [] => c

/-- Skip white space and comments up to a token, and return whether a simple key may start there.
In block style a simple key may start on a new line, and where one may start, tabs are no white
space. -/
def skipToToken (w : Surroundings) (keyAllowed : Bool) : Reading Bool := do
  let start ← mark
  let step (keyAllowed : Bool) : Reading (Option Bool) := do
    need 1
    if (← mark).column = 0 && (← get).marked then skip
    skipWhile fun c => c = ' ' || (c = '\t' && (w.inFlow || !keyAllowed))
    raiseComment w
    if (← look 0) = '#' then skipComments w start
    if isBreak (← look 0) then
      need 2
      skipBreak
      return some (keyAllowed || !w.inFlow)
    else return none
  iterate step (← limit) keyAllowed

end ExprLang.Yaml.Reading
