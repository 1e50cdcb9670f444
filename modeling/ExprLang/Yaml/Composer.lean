import ExprLang.Yaml.Node
import ExprLang.Yaml.Stream

/-!
# Reading documents

A document is put together from tokens. Only the first document of a text is read, and of what
follows it only as much as lies within the look-ahead. `fuel` bounds the number of steps and is
larger than the number of tokens.
-/

namespace ExprLang.Yaml

structure Composer where
  stream : Stream
  /-- What the handles of tags stand for. -/
  tagPrefixes : List (Bytes × Bytes)
  /-- The numbers of the nodes last given each name. -/
  names : List (Bytes × Nat)
  anchored : List (Nat × Node)
  /-- How many nodes have numbers. -/
  count : Nat
  /-- Whether there are comments above what is read next, and an empty line below them. -/
  above : Option Bool

abbrev Composing := ExceptT Fault (StateM Composer)

namespace Composing

def scanning {α : Type} (r : Scanning α) : Composing α := do
  let s ← get
  let (result, stream) := r.run.run s.stream
  set { s with stream }
  MonadExcept.ofExcept result

/-- Hand comments to a token. The end of a block has none above it. -/
def takeComments (t : Token) : Option Bool → List Comment → Option Bool × List Comment
  | above, [] => (above, [])
  | above, c :: comments =>
    if t.mark.index < c.owner then (above, c :: comments)
    else
      match c.place with
      | .above isApart =>
        if t.kind = .blockEnd then (above, c :: comments)
        else takeComments t (some isApart) comments
      | _ => takeComments t above comments

def peek : Composing Token := do
  let t ← scanning Scanning.peek
  modify fun s =>
    let (above, comments) := takeComments t s.above s.stream.cursor.comments
    { s with above, stream := { s.stream with cursor := { s.stream.cursor with comments } } }
  return t

def advance : Composing Unit := scanning Scanning.advance

/-- Finish a step. A problem that was kept for later is reported now. -/
def settle : Composing Unit := do
  match (← get).stream.cursor.doubt with
  | some fault => throw fault
  | none => return

/-- Finish a step that takes the comments seen so far. -/
def settleComments : Composing Unit := do
  modify fun s => { s with above := none }
  settle

/-- Keep a fault for later. -/
def keepDoubt (f : Fault) : Composing Unit := modify fun s =>
  { s with stream := { s.stream with cursor := { s.stream.cursor with doubt := some f } } }

/-- Look at what follows the dash of an item with comments above it. They are about a whole block
collection that starts there. A fault is kept for later, since what follows is looked at again. -/
def leaveComments : Composing Unit := do
  let above := (← get).above
  modify fun s => { s with above := none }
  try
    let t ← peek
    if t.kind ≠ .blockListStart && t.kind ≠ .blockMappingStart then
      modify fun s => { s with above := s.above <|> above }
  catch f => keepDoubt f

/-- Take the dash of an item. -/
def takeDash : Composing Unit := do
  let isCommented := (← get).above.isSome
  advance
  if isCommented then leaveComments

/-- The value of a step that is finished. -/
def done {α : Type} (a : α) : Composing α := do
  settle
  return a

/-- The value of a step that is finished and takes the comments seen so far. -/
def doneWithComments {α : Type} (a : α) : Composing α := do
  settleComments
  return a

/-- Fail with a token that does not belong into what started at `start`. -/
def refuse {α : Type} (problem : Problem) (start : Nat) (t : Token) : Composing α :=
  throw (.ofStructure problem start t.line)

def emptyAt (line : Nat) : Composing Node := done (.empty (line + 1))

/-! ## Properties -/

/-- What may stand before the content of a node. -/
structure Properties where
  /-- The line of the node, counted from zero. -/
  line : Nat
  anchor : Option Bytes
  tag : Option (Bytes × Bytes × Nat)

/-- Read an anchor and a tag, in either order. -/
def properties : Composing Properties := do
  let first ← peek
  match first.kind with
  | .anchor name =>
    advance
    let next ← peek
    match next.kind with
    | .tag handle text =>
      advance
      return ⟨first.line, some name, some (handle, text, next.line)⟩
    | _ => return ⟨first.line, some name, none⟩
  | .tag handle text =>
    advance
    match (← peek).kind with
    | .anchor name =>
      advance
      return ⟨first.line, some name, some (handle, text, first.line)⟩
    | _ => return ⟨first.line, none, some (handle, text, first.line)⟩
  | _ => return ⟨first.line, none, none⟩

/-- The full name of a tag. -/
def tagName? (p : Properties) : Composing (Option Bytes) := do
  match p.tag with
  | none => return none
  | some (handle, text, line) =>
    if handle.isEmpty then return some text
    match (← get).tagPrefixes.lookup handle with
    | some start => return some (start ++ text)
    | none => throw (.ofStructure .unknownTagHandle p.line line)

/-- The tag to use: a lone exclamation mark says nothing. -/
def explicitTag? (name : Option Bytes) : Option Tag :=
  (name.filter fun n => n ≠ bytes "!").map Tag.ofName

/-- A number for a node. -/
def newNumber : Composing Nat := do
  let s ← get
  set { s with count := s.count + 1 }
  return s.count

/-- Give the node that starts here its name. -/
def giveName (anchor : Option Bytes) : Composing (Option Nat) := do
  match anchor with
  | none => return none
  | some name =>
    let number ← newNumber
    modify fun s => { s with names := (name, number) :: s.names }
    return some number

/-- Keep a node that has a name for aliases. -/
def keep (number : Option Nat) (n : Node) : Composing Node := do
  match number with
  | none => return n
  | some number =>
    modify fun s => { s with anchored := (number, n) :: s.anchored }
    return n

/-! ## Nodes -/

/-- Where a node stands. -/
inductive Context
  /-- In block style. -/
  | block
  /-- In block style, where a list may be indented like what it belongs to. -/
  | mappingEntry
  | flow
  deriving DecidableEq, Repr

mutual

def node (fuel : Nat) (context : Context) : Composing Node :=
  match fuel with
  | 0 => do refuse .missingContent 0 (← peek)
  | fuel + 1 => do
    let first ← peek
    match first.kind with
    | .alias name =>
      match (← get).names.lookup name with
      | none =>
        advance
        settle
        throw (.ofText (.unknownAnchor name))
      | some target =>
        advance
        doneWithComments (.alias (first.line + 1) (← newNumber) name target)
    | _ =>
      let p ← properties
      let t ← peek
      let name ← tagName? p
      let tag := explicitTag? name
      let line := p.line + 1
      match t.kind with
      | .scalar isPlain text =>
        advance
        settleComments
        let n :=
          match tag with
          | some tag => Node.scalar line tag text
          | none => .untagged line isPlain text
        keep (← giveName p.anchor) n
      | .listStart =>
        settleComments
        let number ← giveName p.anchor
        advance
        let items ← flowItems fuel t.line true []
        keep number (.list line (tag.getD .list) items)
      | .mappingStart =>
        settleComments
        let number ← giveName p.anchor
        advance
        let entries ← flowEntries fuel t.line true []
        keep number (.mapping line (tag.getD .mapping) entries)
      | kind =>
        if context ≠ .flow && kind = .blockListStart then
          settle
          let number ← giveName p.anchor
          advance
          let items ← blockItems fuel t.line []
          keep number (.list line (tag.getD .list) items)
        else if context ≠ .flow && kind = .blockMappingStart then
          settle
          let number ← giveName p.anchor
          advance
          let entries ← blockEntries fuel t.line []
          keep number (.mapping line (tag.getD .mapping) entries)
        else if context = .mappingEntry && kind = .item then
          settle
          let number ← giveName p.anchor
          let items ← alignedItems fuel []
          keep number (.list line (tag.getD .list) items)
        else if p.anchor.isSome || name.isSome then
          settle
          keep (← giveName p.anchor)
            (match tag with
              | some tag => .scalar line tag []
              | none => .empty line)
        else refuse .missingContent p.line t
termination_by structural fuel

/-- Read a node, unless one of the given tokens follows; then it is empty. -/
def nodeUnless (fuel : Nat) (context : Context) (ends : List TokenKind) (line : Nat) :
    Composing Node :=
  match fuel with
  | 0 => do refuse .missingContent 0 (← peek)
  | fuel + 1 => do
    if ends.contains (← peek).kind then emptyAt line else node fuel context
termination_by structural fuel

/-- Read the items of a block list. -/
def blockItems (fuel : Nat) (start : Nat) (items : List Node) : Composing (List Node) :=
  match fuel with
  | 0 => do refuse .missingDash start (← peek)
  | fuel + 1 => do
    let t ← peek
    if t.kind = .item then
      takeDash
      let item ← nodeUnless fuel .block [.item, .blockEnd] t.line
      blockItems fuel start (item :: items)
    else if t.kind = .blockEnd then
      advance
      done items.reverse
    else refuse .missingDash start t
termination_by structural fuel

/-- Read the items of a list that is indented like the mapping it belongs to. -/
def alignedItems (fuel : Nat) (items : List Node) : Composing (List Node) :=
  match fuel with
  | 0 => do refuse .missingDash 0 (← peek)
  | fuel + 1 => do
    let t ← peek
    if t.kind = .item then
      takeDash
      let item ← nodeUnless fuel .block [.item, .key, .value, .blockEnd] t.line
      alignedItems fuel (item :: items)
    else done items.reverse
termination_by structural fuel

/-- Read the entries of a block mapping. -/
def blockEntries (fuel : Nat) (start : Nat) (entries : List (Node × Node)) :
    Composing (List (Node × Node)) :=
  match fuel with
  | 0 => do refuse .missingKey start (← peek)
  | fuel + 1 => do
    let t ← peek
    if t.kind = .key then
      advance
      let key ← nodeUnless fuel .mappingEntry [.key, .value, .blockEnd] t.line
      let t ← peek
      let value ←
        if t.kind = .value then do
          advance
          nodeUnless fuel .mappingEntry [.key, .value, .blockEnd] t.line
        else emptyAt t.line
      blockEntries fuel start ((key, value) :: entries)
    else if t.kind = .blockEnd then
      advance
      doneWithComments entries.reverse
    else refuse .missingKey start t
termination_by structural fuel

/-- Read the items of a list in flow style. A pair is a mapping with one entry. -/
def flowItems (fuel : Nat) (start : Nat) (isFirst : Bool) (items : List Node) :
    Composing (List Node) :=
  match fuel with
  | 0 => do refuse .listSeparator start (← peek)
  | fuel + 1 => do
    let t ← peek
    if t.kind ≠ .listEnd && t.kind ≠ .comma && !isFirst then refuse .listSeparator start t
    if t.kind = .comma && !isFirst then advance
    let t ← peek
    if t.kind = .listEnd then
      advance
      doneWithComments items.reverse
    else if t.kind = .key then
      advance
      settle
      let item ← flowPair fuel (t.line + 1)
      flowItems fuel start false (item :: items)
    else
      let item ← node fuel .flow
      flowItems fuel start false (item :: items)
termination_by structural fuel

/-- Read a pair in a list. A key that is left out takes the token after it along. -/
def flowPair (fuel : Nat) (line : Nat) : Composing Node :=
  match fuel with
  | 0 => do refuse .missingContent 0 (← peek)
  | fuel + 1 => do
    let t ← peek
    let key ←
      if [TokenKind.value, .comma, .listEnd].contains t.kind then do
        advance
        emptyAt t.line
      else node fuel .flow
    let t ← peek
    let value ←
      if t.kind = .value then do
        advance
        nodeUnless fuel .flow [.comma, .listEnd] (← peek).line
      else emptyAt t.line
    discard peek
    done (.mapping line .mapping [(key, value)])
termination_by structural fuel

/-- Read the entries of a mapping in flow style. -/
def flowEntries (fuel : Nat) (start : Nat) (isFirst : Bool) (entries : List (Node × Node)) :
    Composing (List (Node × Node)) :=
  match fuel with
  | 0 => do refuse .mappingSeparator start (← peek)
  | fuel + 1 => do
    let t ← peek
    if t.kind ≠ .mappingEnd && t.kind ≠ .comma && !isFirst then refuse .mappingSeparator start t
    if t.kind = .comma && !isFirst then advance
    let t ← peek
    if t.kind = .mappingEnd then
      advance
      doneWithComments entries.reverse
    else if t.kind = .key then
      advance
      let key ← nodeUnless fuel .flow [.value, .comma, .mappingEnd] (← peek).line
      let t ← peek
      let value ←
        if t.kind = .value then do
          advance
          nodeUnless fuel .flow [.comma, .mappingEnd] (← peek).line
        else emptyAt t.line
      flowEntries fuel start false ((key, value) :: entries)
    else
      let key ← node fuel .flow
      let value ← emptyAt (← peek).line
      flowEntries fuel start false ((key, value) :: entries)
termination_by structural fuel

end

/-! ## Documents -/

def defaultTagPrefixes : List (Bytes × Bytes) := [(bytes "!", bytes "!"), (bytes "!!", Tag.home)]

/-- Read directives. Only one version of the format is known. -/
def directives : Nat → Bool → Composing Unit
  | 0, _ => return
  | fuel + 1, hasVersion => do
    let t ← peek
    match t.kind with
    | .version major minor =>
      if hasVersion then refuse .repeatedVersion 0 t
      if major ≠ 1 || minor ≠ 1 then refuse .otherVersion 0 t
      advance
      directives fuel true
    | .tagPrefix handle text =>
      let s ← get
      if (s.tagPrefixes.lookup handle).isSome then refuse .repeatedTagPrefix 0 t
      set { s with tagPrefixes := (handle, text) :: s.tagPrefixes }
      advance
      directives fuel hasVersion
    | _ => return

/-- Prefixes that a document defines hide the usual ones. -/
def addDefaultTagPrefixes : Composing Unit := modify fun s =>
  { s with tagPrefixes := s.tagPrefixes ++ defaultTagPrefixes }

def startsDirectives : TokenKind → Bool
  | .version _ _ => true
  | .tagPrefix _ _ => true
  | _ => false

/-- Whether a document that was announced is over before it has content. -/
def endsDocument (kind : TokenKind) : Bool :=
  startsDirectives kind || kind = .documentStart || kind = .documentEnd || kind = .streamEnd

/-- Read the root of the first document. -/
def root (fuel : Nat) : Composing (Option Node) := do
  discard peek
  advance
  settle
  let t ← peek
  if t.kind = .streamEnd then done none
  else if startsDirectives t.kind || t.kind = .documentStart then
    directives fuel false
    addDefaultTagPrefixes
    let t ← peek
    if t.kind ≠ .documentStart then refuse .missingDocumentStart 0 t
    advance
    settle
    let t ← peek
    if endsDocument t.kind then return some (← emptyAt t.line)
    else return some (← node fuel .block)
  else
    addDefaultTagPrefixes
    settle
    modify fun s => { s with above := s.above.filter (!·) }
    return some (← node fuel .block)

/-- Look at what follows a document. -/
def finish : Composing Unit := do
  if (← peek).kind = .documentEnd then advance
  settleComments

def document (fuel : Nat) : Composing (Option Document) := do
  match ← root fuel with
  | none => return none
  | some n =>
    finish
    return some ⟨n, (← get).anchored, fuel⟩

end Composing

/-- Read the first document of a text. There is none in a text without content. -/
def read (text : Bytes) : Except Fault (Option Document) :=
  ((Composing.document (8 * (text.length + 8))).run.run ⟨.ofText text, [], [], [], 0, none⟩).1

end ExprLang.Yaml
