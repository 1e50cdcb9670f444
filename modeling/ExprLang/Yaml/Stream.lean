import ExprLang.Yaml.Token

/-!
# Streams of tokens

Tokens are read a little ahead of where they are needed. A scalar, a flow collection or a property
may turn out to be a key when a colon follows; only then is it known that a key, and perhaps a
block mapping, started before it. Such a simple key has to end on its line and within 1024
characters. While the first token in the queue may turn out to be one, the stream is read on; only
a flow collection without simple keys in it is not waited for. A block ends where a line is
indented less.
-/

namespace ExprLang.Yaml

/-- A place where a simple key may have started. -/
structure KeyPlace where
  /-- Whether nothing else can start there. -/
  isRequired : Bool
  /-- Whether the stream is read on until it is known if a key started there. -/
  isAwaited : Bool
  /-- The number of the token that starts there. -/
  number : Nat
  mark : Mark

/-- The simple key of a flow collection, or the one outside of all. -/
structure KeySlot where
  place : Option KeyPlace
  /-- The number of the token where the last place was, and at first of the token that starts the
  collection. -/
  number : Nat

structure Stream where
  cursor : Cursor
  /-- Whether reading has begun. -/
  isOpen : Bool
  /-- The tokens read and not yet taken. -/
  queue : List Token
  /-- The number of tokens taken. -/
  taken : Nat
  /-- The least column of what belongs to the innermost block collection as its content; zero
  outside of all. -/
  level : Nat
  /-- The levels outside, the innermost first. -/
  outerLevels : List Nat
  keyAllowed : Bool
  /-- The possible simple key outside of flow collections and in each one, the innermost first. -/
  keys : List KeySlot
  /-- The number of flow collections around. -/
  depth : Nat

abbrev Scanning := ExceptT Fault (StateM Stream)

def Stream.ofText (text : Bytes) : Stream :=
  ⟨.ofText text, false, [], 0, 0, [], true, [⟨none, 0⟩], 0⟩

namespace KeySlot

/-- No longer wait for a key that starts with the token of the given number. -/
def forget (number : Nat) (slot : KeySlot) : KeySlot :=
  { slot with
    place := slot.place.map fun k => { k with isAwaited := k.isAwaited && k.number ≠ number } }

/-- The key waited for that starts with the token of the given number. From the inside out the
numbers of slots do not rise, so that the search can stop at a smaller one. -/
def awaited? (number : Nat) : List KeySlot → Option KeyPlace
  | [] => none
  | slot :: slots =>
    if slot.number < number then none
    else
      match slot.place with
      | some k => if k.isAwaited && k.number = number then some k else awaited? number slots
      | none => awaited? number slots

end KeySlot

namespace Stream

/-- The token that a comment between tokens is about: the last one, but not a comma. -/
def lastToken (s : Stream) : Token :=
  match s.queue.reverse with
  | t :: before => if t.kind = .comma then before.headD t else t
  | [] => ⟨.streamStart, ⟨0, 0, 0⟩⟩

/-- What comes before the next token. -/
def surroundings (s : Stream) : Reading.Surroundings where
  inFlow := s.depth ≠ 0
  level := s.level
  lastToken := s.lastToken.mark.index
  afterValue := s.lastToken.kind = .value
  afterFirstDash := (s.queue.reverse.take 2).map (·.kind) = [.item, .blockListStart]

end Stream

namespace Scanning

def reading {α : Type} (r : Reading α) : Scanning α := do
  let s ← get
  let (result, cursor) := r.run.run s.cursor
  set { s with cursor }
  MonadExcept.ofExcept result

def mark : Scanning Mark := return (← get).cursor.mark

def inFlow : Scanning Bool := return (← get).depth ≠ 0

def allowKey (allowed : Bool) : Scanning Unit := modify fun s => { s with keyAllowed := allowed }

/-- Add a token at the end. -/
def push (kind : TokenKind) (start : Mark) : Scanning Unit := modify fun s =>
  { s with queue := s.queue ++ [⟨kind, start⟩] }

/-- Add a token before the one with the given number, or at the end if that one has been taken. -/
def insert (kind : TokenKind) (start : Mark) (number : Nat) : Scanning Unit := modify fun s =>
  let n := if number < s.taken then s.queue.length else number - s.taken
  { s with queue := s.queue.take n ++ ⟨kind, start⟩ :: s.queue.drop n }

/-- The number of the next token to be added. -/
def nextNumber : Scanning Nat := return (← get).taken + (← get).queue.length

/-! ## Simple keys -/

def keyReach : Nat := 1024

/-- Whether it is too late for a key to end here. -/
def KeyPlace.isStale (k : KeyPlace) (here : Mark) : Bool :=
  k.mark.line < here.line || k.mark.index + keyReach < here.index

/-- The possible key in the innermost flow collection. -/
def currentKey? : Scanning (Option KeyPlace) := return ((← get).keys.head?).bind (·.place)

/-- Forget the possible key in the innermost flow collection. -/
def clearKey : Scanning Unit := modify fun s =>
  match s.keys with
  | slot :: slots => { s with keys := { slot with place := none } :: slots }
  | [] => s

/-- Note a possible key in the innermost flow collection. -/
def setKey (k : KeyPlace) : Scanning Unit := modify fun s =>
  { s with keys := ⟨some k, k.number⟩ :: s.keys.drop 1 }

/-- Fail because a key has no colon. -/
def missingColon {α : Type} (k : KeyPlace) : Scanning α := do
  throw (.ofToken .missingColon k.mark.line (← mark).line)

/-- Give up the possible key in the innermost flow collection. -/
def dropKey : Scanning Unit := do
  match ← currentKey? with
  | some k => if k.isRequired then missingColon k else clearKey
  | none => return

/-- Note that a simple key may start here. At the column of a block mapping's keys it has to. -/
def saveKey : Scanning Unit := do
  let s ← get
  if s.keyAllowed then
    let isRequired := s.depth = 0 && s.level = s.cursor.mark.column + 1
    dropKey
    setKey ⟨isRequired, true, ← nextNumber, s.cursor.mark⟩

/-- Whether a key may still end here. -/
def isAlive (k : KeyPlace) : Scanning Bool := do
  let isStale := KeyPlace.isStale k (← mark)
  if isStale && k.isRequired then missingColon k
  return !isStale

/-! ## Levels -/

/-- Start a block collection at a column, unless it belongs to the one around. -/
def openBlock (kind : TokenKind) (at? : Option Nat) (start : Mark) : Scanning Unit := do
  let s ← get
  if s.depth = 0 && s.level ≤ start.column then
    set { s with outerLevels := s.level :: s.outerLevels, level := start.column + 1 }
    if maxDepth ≤ s.outerLevels.length then throw (.ofToken .tooDeep 0 (← mark).line)
    match at? with
    | some number => insert kind start number
    | none => push kind start

/-- Where a block ends: at the first of the comments before its end that are indented like it. The
comments are given the last first, and have to reach up to `reach`. -/
def blockEndAt (level reach : Nat) : Mark → List Comment → Mark
  | place, [] => place
  | place, c :: comments =>
    if c.stop < reach then place
    else blockEndAt level c.searched (if c.start.column = level then c.start else place) comments

/-- End block collections until the level is at most `limit`; the last argument holds the levels
outside. -/
def closeTo (limit : Nat) : Mark → Nat → List Nat → Scanning Unit
  | _, level, [] => modify fun s => { s with level, outerLevels := [] }
  | place, level, outer :: rest => do
    if limit < level then
      let place := blockEndAt level place.index place (← get).cursor.comments.reverse
      push .blockEnd place
      closeTo limit place outer rest
    else modify fun s => { s with level, outerLevels := outer :: rest }

/-- End the block collections that a token at the given level does not belong to. The search for
the token began at `start`. -/
def closeBlocks (limit : Nat) (start : Mark) : Scanning Unit := do
  let s ← get
  if s.depth = 0 then closeTo limit { start with index := start.index - 1 } s.level s.outerLevels

/-! ## Tokens -/

/-- Add a token of one or more characters. -/
def pushMark (kind : TokenKind) (width : Nat) : Scanning Unit := do
  let start ← mark
  reading (Reading.skipMany width)
  push kind start

/-- Add a token that is read. -/
def readToken (r : Reading TokenKind) : Scanning Unit := do
  let start ← mark
  let kind ← reading r
  push kind start

def fetchEnd : Scanning Unit := do
  modify fun s =>
    let m := s.cursor.mark
    if m.column = 0 then s
    else { s with cursor := { s.cursor with mark := ⟨m.index, m.line + 1, 0⟩ } }
  let start ← mark
  closeBlocks 0 start
  dropKey
  allowKey false
  push .streamEnd start

/-- Leave all blocks, as before directives and marks between documents. -/
def leaveBlocks : Scanning Unit := do
  closeBlocks 0 (← mark)
  dropKey
  allowKey false

def fetchDirective : Scanning Unit := do
  leaveBlocks
  readToken Reading.takeDirective

def fetchDocumentMark (kind : TokenKind) : Scanning Unit := do
  leaveBlocks
  pushMark kind 3

/-- Enter a flow collection. -/
def openFlow : Scanning Unit := do
  let number ← nextNumber
  modify fun s => { s with keys := ⟨none, number⟩ :: s.keys, depth := s.depth + 1 }

/-- Leave a flow collection, if there is one. If no key was possible in it, it is itself no longer
waited for to be one. -/
def closeFlow : Scanning Unit := modify fun s =>
  match s.keys with
  | inner :: outer :: slots =>
    { s with keys := outer.forget inner.number :: slots, depth := s.depth - 1 }
  | _ => s

def fetchFlowStart (kind : TokenKind) : Scanning Unit := do
  saveKey
  openFlow
  if maxDepth < (← get).depth then throw (.ofToken .tooDeep 0 (← mark).line)
  allowKey true
  pushMark kind 1

def fetchFlowEnd (kind : TokenKind) : Scanning Unit := do
  dropKey
  closeFlow
  allowKey false
  pushMark kind 1

def fetchComma : Scanning Unit := do
  dropKey
  allowKey true
  pushMark .comma 1

def fetchItem : Scanning Unit := do
  let s ← get
  if s.depth = 0 then
    if !s.keyAllowed then reading (Reading.fail .sequenceEntry s.cursor.mark)
    openBlock .blockListStart none s.cursor.mark
  dropKey
  allowKey true
  pushMark .item 1

def fetchKey : Scanning Unit := do
  let s ← get
  if s.depth = 0 then
    if !s.keyAllowed then reading (Reading.fail .mappingKey s.cursor.mark)
    openBlock .blockMappingStart none s.cursor.mark
  dropKey
  allowKey (s.depth = 0)
  pushMark .key 1

/-- A colon ends a simple key, if there can be one, and otherwise a key that was announced. -/
def fetchValue : Scanning Unit := do
  let key ←
    match ← currentKey? with
    | some k => do pure (if ← isAlive k then some k else none)
    | none => pure none
  let s ← get
  match key with
  | some k =>
    insert .key k.mark k.number
    openBlock .blockMappingStart (some k.number) k.mark
    clearKey
    allowKey false
  | none =>
    if s.depth = 0 then
      if !s.keyAllowed then reading (Reading.fail .mappingValue s.cursor.mark)
      openBlock .blockMappingStart none s.cursor.mark
    allowKey (s.depth = 0)
  pushMark .value 1

def fetchAnchor : Scanning Unit := do
  saveKey
  allowKey false
  readToken do
    let isAlias := (← Reading.look 0) = '*'
    let name ← Reading.takeAnchor
    return if isAlias then .alias name else .anchor name

def fetchTag : Scanning Unit := do
  saveKey
  allowKey false
  readToken do
    let (handle, text) ← Reading.takeTag
    return .tag handle text

def fetchBlockScalar : Scanning Unit := do
  dropKey
  allowKey true
  let level := (← get).level
  readToken do return .scalar false (← Reading.takeBlock level)

def fetchQuoted (quote : Char) : Scanning Unit := do
  saveKey
  allowKey false
  readToken do return .scalar false (← Reading.takeQuoted quote)

def fetchPlain : Scanning Unit := do
  saveKey
  allowKey false
  let start ← mark
  let s ← get
  let (text, isBroken) ← reading (Reading.takePlain (s.depth ≠ 0) s.level)
  if isBroken then allowKey true
  push (.scalar true text) start

/-! ## The next token -/

/-- Characters a plain scalar does not start with, unless more is known. -/
def indicators : List Char :=
  ['-', '?', ':', ',', '[', ']', '\x7b', '\x7d', '#', '&', '*', '!', '|', '>', '\'', '"', '%', '@',
    '\x60']

/-- Read a token inside a document. -/
def fetchContent : Scanning Unit := do
  let c ← reading (Reading.look 0)
  let next ← reading (Reading.look 1)
  let flow ← inFlow
  if c = '[' then fetchFlowStart .listStart
  else if c = '\x7b' then fetchFlowStart .mappingStart
  else if c = ']' then fetchFlowEnd .listEnd
  else if c = '\x7d' then fetchFlowEnd .mappingEnd
  else if c = ',' then fetchComma
  else if c = '-' && isSpaceOrEnd next then fetchItem
  else if c = '?' && (flow || isSpaceOrEnd next) then fetchKey
  else if c = ':' && (flow || isSpaceOrEnd next) then fetchValue
  else if c = '*' || c = '&' then fetchAnchor
  else if c = '!' then fetchTag
  else if (c = '|' || c = '>') && !flow then fetchBlockScalar
  else if c = '\'' || c = '"' then fetchQuoted c
  else if !(isSpaceOrEnd c || indicators.contains c) || c = '-' || c = '?' || c = ':' then fetchPlain
  else
    let start ← mark
    reading (Reading.fail .unexpectedCharacter start)

/-- The token that a comment behind the next token is about, as the number of characters before it.
For a colon or a comma it is the token before. -/
def commentOwner : Scanning Nat := do
  let s ← get
  let c ← reading (Reading.look 0)
  let here := s.cursor.mark.index
  if c = (if s.depth = 0 then ':' else ',') then
    return (s.queue.getLast?.map (·.mark.index)).getD here
  else return here

/-- Read a token, with the comment that follows it on its line. -/
def fetch : Scanning Unit := do
  reading (Reading.need 1)
  let s ← get
  if !s.isOpen then
    set { s with isOpen := true }
    push .streamStart s.cursor.mark
  else
    allowKey (← reading (Reading.skipToToken s.surroundings s.keyAllowed))
    closeBlocks ((← mark).column + 1) s.cursor.mark
    reading (Reading.need 4)
    let c ← reading (Reading.look 0)
    if c = ending then fetchEnd
    else if (← mark).column = 0 && c = '%' then fetchDirective
    else if ← reading (Reading.atDocumentMark '-') then fetchDocumentMark .documentStart
    else if ← reading (Reading.atDocumentMark '.') then fetchDocumentMark .documentEnd
    else
      let owner ← commentOwner
      fetchContent
      if !((← get).queue.getLast?.any fun t => t.kind = .item) then
        reading (Reading.skipLineComment owner)

/-- Read tokens until three are waiting and the first cannot turn out to be a key. -/
def fillUpTo : Nat → Scanning Unit
  | 0 => return
  | fuel + 1 => do
    let s ← get
    if s.queue.length < 3 then
      fetch
      fillUpTo fuel
    else
      match KeySlot.awaited? s.taken s.keys with
      | some k =>
        if ← isAlive k then
          fetch
          fillUpTo fuel
      | none => return

/-- The next token. -/
def peek : Scanning Token := do
  fillUpTo (8 * (← get).cursor.limit)
  return (← get).queue.headD ⟨.streamEnd, ← mark⟩

/-- Take the next token. -/
def advance : Scanning Unit := modify fun s =>
  { s with queue := s.queue.drop 1, taken := s.taken + 1 }

end Scanning

end ExprLang.Yaml
