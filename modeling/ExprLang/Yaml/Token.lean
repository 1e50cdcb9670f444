import ExprLang.Yaml.Scalar

/-!
# Tokens

Besides scalars and single characters there are anchors, aliases, tags and directives. Some tokens
have no text of their own: where block collections and keys start and where blocks end.
-/

namespace ExprLang.Yaml

inductive TokenKind
  | streamStart
  | streamEnd
  | version (major minor : Nat)
  | tagPrefix (handle text : Bytes)
  | documentStart
  | documentEnd
  | blockListStart
  | blockMappingStart
  | blockEnd
  | listStart
  | listEnd
  | mappingStart
  | mappingEnd
  /-- A dash before an item of a block list. -/
  | item
  | comma
  | key
  | value
  | alias (name : Bytes)
  | anchor (name : Bytes)
  /-- A tag; the handle is empty if the text is the whole tag. -/
  | tag (handle text : Bytes)
  | scalar (isPlain : Bool) (text : Bytes)
  deriving DecidableEq, Repr

structure Token where
  kind : TokenKind
  /-- Where it starts. -/
  mark : Mark
  deriving DecidableEq, Repr

/-- The line it starts on, counted from zero. -/
def Token.line (t : Token) : Nat := t.mark.line

namespace Reading

/-! ## Anchors and aliases -/

/-- Read the name of an anchor or alias. -/
def takeAnchor : Reading Bytes := do
  let start ← mark
  skip
  let name ← takeWhile isNameCharacter []
  let c ← look 0
  if name.isEmpty || !(isSpaceOrEnd c || ['?', ':', ',', ']', '\x7d', '%', '@', '\x60'].contains c)
    then fail .anchorName start
  return encodeChars name.reverse

/-! ## Tags -/

/-- Characters of tags, besides those of names. -/
def tagCharacters : List Char :=
  [';', '/', '?', ':', '@', '&', '=', '+', '$', ',', '.', '!', '~', '*', '\'', '(', ')', '[', ']',
    '%']

def isTagCharacter (c : Char) : Bool := isNameCharacter c || tagCharacters.contains c

/-- Read a byte written as a percent sign and two digits. -/
def takeTagByte (start : Mark) : Reading UInt8 := do
  need 3
  match hexDigit? (← look 1), hexDigit? (← look 2) with
  | some high, some low =>
    if (← look 0) ≠ '%' then fail .tagEscape start
    return UInt8.ofNat (16 * high + low)
  | _, _ => fail .tagEscape start

/-- Read bytes after the first of a character. -/
def takeTagTrail (start : Mark) : Nat → Bytes → Reading Bytes
  | 0, read => return read
  | n + 1, read => do
    let b ← takeTagByte start
    if !isTrailing b then fail .tagTrailingByte start
    skipMany 3
    takeTagTrail start n (b :: read)

/-- Read a character given by its bytes, which are added with the last first. -/
def takeTagBytes (start : Mark) (read : Bytes) : Reading Bytes := do
  let b ← takeTagByte start
  match announcedWidth? b with
  | none => fail .tagLeadingByte start
  | some width =>
    skipMany 3
    takeTagTrail start (width - 1) (b :: read)

/-- Read the text of a tag after what is known of it already. -/
def takeTagText (start : Mark) (known : Option Bytes) : Reading Bytes := do
  need 1
  let step (read : Bytes) : Reading (Option Bytes) := do
    let c ← look 0
    if c = '%' then
      let read ← takeTagBytes start read
      need 1
      return some read
    else if isTagCharacter c then
      skip
      need 1
      return some (byte c :: read)
    else return none
  let before := known.getD []
  let isPresent := known.isSome || isTagCharacter (← look 0)
  let read ← iterate step (← limit) before.reverse
  if !isPresent then fail .tagText start
  return read.reverse

/-- Read a handle: a name between exclamation marks, of which the second may be missing. -/
def takeTagHandle (inDirective : Bool) (start : Mark) : Reading (List Char) := do
  need 1
  if (← look 0) ≠ '!' then fail .tagMark start
  skip
  let name ← takeWhile isNameCharacter []
  if (← look 0) = '!' then
    skip
    return '!' :: (name.reverse ++ ['!'])
  else if inDirective && !name.isEmpty then fail .tagMark start
  else return '!' :: name.reverse

/-- Read a tag: its handle and its text. -/
def takeTag : Reading (Bytes × Bytes) := do
  let start ← mark
  need 2
  let parts ←
    if (← look 1) = '<' then do
      skipMany 2
      let text ← takeTagText start none
      if (← look 0) ≠ '>' then fail .tagBracket start
      skip
      pure ([], text)
    else do
      let handle ← takeTagHandle false start
      if 1 < handle.length && handle.getLast? = some '!' then
        pure (encodeChars handle, ← takeTagText start none)
      else do
        let text ← takeTagText start (some (encodeChars (handle.drop 1)))
        pure (if text.isEmpty then ([], bytes "!") else (bytes "!", text))
  need 1
  if !isSpaceOrEnd (← look 0) then fail .tagEnd start
  return parts

/-! ## Directives -/

/-- Read a number of a version: one or two digits. -/
def takeVersionNumber (start : Mark) : Reading Nat := do
  need 1
  let step (state : Nat × Nat) : Reading (Option (Nat × Nat)) := do
    let c ← look 0
    if !c.isDigit then return none
    if state.1 = 2 then fail .longVersion start
    skip
    need 1
    return some (state.1 + 1, 10 * state.2 + (c.toNat - 48))
  let (digits, n) ← iterate step (← limit) (0, 0)
  if digits = 0 then fail .versionNumber start
  return n

def takeVersion (start : Mark) : Reading TokenKind := do
  skipWhile isBlank
  let major ← takeVersionNumber start
  if (← look 0) ≠ '.' then fail .versionPoint start
  skip
  let minor ← takeVersionNumber start
  return .version major minor

def takeTagPrefix (start : Mark) : Reading TokenKind := do
  skipWhile isBlank
  let handle ← takeTagHandle true start
  need 1
  if !isBlank (← look 0) then fail .directiveBlank start
  skipWhile isBlank
  let text ← takeTagText start none
  need 1
  if !isSpaceOrEnd (← look 0) then fail .tagEnd start
  return .tagPrefix (encodeChars handle) text

/-- Read a directive with the rest of its line. -/
def takeDirective : Reading TokenKind := do
  let start ← mark
  skip
  let name := String.ofList (← takeWhile isNameCharacter []).reverse
  if name.isEmpty then fail .directiveName start
  if !isSpaceOrEnd (← look 0) then fail .directiveCharacter start
  let kind ←
    if name = "YAML" then takeVersion start
    else if name = "TAG" then takeTagPrefix start
    else fail .unknownDirective start
  skipLineEnd start
  return kind

end Reading

end ExprLang.Yaml
