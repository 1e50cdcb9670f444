import ExprLang.Settings.Basic
import ExprLang.Settings.Error
import ExprLang.Yaml.Node

/-!
# Settings from documents

A settings file is a mapping from the names of settings to their values. A setting given the empty
value keeps its default. A mapping can be merged with others, whose entries count where it has none
of the same name. Aliases are followed, but not without a limit: small documents must not stand for
large ones.
-/

namespace ExprLang

/-- What decoding has come to. -/
structure Tally where
  mistakes : List SettingMistake
  /-- The number of nodes decoded. -/
  nodes : Nat
  /-- The number of those that were reached through aliases. -/
  aliased : Nat
  /-- The numbers of the aliases that are being followed. -/
  following : List Nat

namespace Tally

def start : Tally := ⟨[], 0, 0, []⟩

/-- Up to this number of nodes 99 of 100 may be reached through aliases. -/
def generousUpTo : Nat := 400000

/-- From there on their share falls to 10 of 100 over this number of nodes. -/
def decline : Nat := 3600000

/-- Whether too many nodes were reached through aliases. -/
def isExcessive (t : Tally) : Bool :=
  let share := 99 * decline - 89 * min (t.nodes - generousUpTo) decline
  100 < t.aliased && 1000 < t.nodes && t.nodes * share < 100 * decline * t.aliased

end Tally

/-- Decoding collects mistakes and goes on, and stops at a refusal. -/
abbrev Decoding := StateT Tally (Except SettingRefusal)

namespace Decoding

def note (mistakes : List SettingMistake) : Decoding Unit := modify fun t =>
  { t with mistakes := t.mistakes ++ mistakes }

def datum (tag : Yaml.Tag) (text : Bytes) : Decoding Yaml.Datum :=
  match Yaml.Datum.ofScalar tag text with
  | .ok d => return d
  | .error r => throw (.value r)

/-- Count a node. -/
def count : Decoding Unit := do
  let t ← get
  let t := { t with
    nodes := t.nodes + 1
    aliased := if t.following.isEmpty then t.aliased else t.aliased + 1 }
  if t.isExcessive then throw .excessiveAliasing
  set t

/-- Decode a node, or the one that an alias stands for. -/
def visit {α : Type} (d : Yaml.Document) (n : Yaml.Node) (decode : Yaml.Node → Decoding α) :
    Decoding α := do
  count
  match n with
  | .alias _ number name _ =>
    let following := (← get).following
    if following.contains number then throw (.selfContained name)
    modify fun t => { t with following := number :: following }
    count
    let a ← decode (d.follow n)
    modify fun t => { t with following }
    return a
  | n => decode n

end Decoding

namespace Settings

/-! ## Names -/

/-- The text by which keys are told apart; lists and mappings have none. -/
def keyText : Yaml.Node → Bytes
  | .scalar _ _ text => text
  | .alias _ _ name _ => name
  | _ => []

def sameKey (a b : Yaml.Node) : Bool :=
  match a, b with
  | .scalar _ _ s, .scalar _ _ t => s = t
  | .list _ _ _, .list _ _ _ => true
  | .mapping _ _ _, .mapping _ _ _ => true
  | .alias _ _ s _, .alias _ _ t _ => s = t
  | _, _ => false

/-- All pairs of equal keys. -/
def repeatedNames : List Yaml.Node → List SettingMistake
  | [] => []
  | key :: keys =>
    ((keys.filter (sameKey key)).map fun other =>
      .repeatedName other.line (keyText other) key.line) ++ repeatedNames keys

/-! ## Values -/

/-- Note that a node is not of the kind wanted. Of a mapping with repeated keys only those are
mistakes. -/
def noteWrongKind (kind : SettingKind) : Yaml.Node → Decoding Unit
  | .scalar line tag text => Decoding.note [.wrongKind line tag text kind]
  | .list line tag _ => Decoding.note [.wrongKind line tag [] kind]
  | .mapping line tag entries =>
    match repeatedNames (entries.map (·.1)) with
    | [] => Decoding.note [.wrongKind line tag [] kind]
    | mistakes => Decoding.note mistakes
  | .alias _ _ _ _ => return

def yesWords : List Bytes :=
  [bytes "y", bytes "Y", bytes "yes", bytes "Yes", bytes "YES", bytes "on", bytes "On", bytes "ON"]

def noWords : List Bytes :=
  [bytes "n", bytes "N", bytes "no", bytes "No", bytes "NO", bytes "off", bytes "Off",
    bytes "OFF"]

def boolOfWord? (word : Bytes) : Option Bool :=
  if yesWords.contains word then some true
  else if noWords.contains word then some false
  else none

def boolOfDatum? : Yaml.Datum → Option Bool
  | .bool b => some b
  | .text s => boolOfWord? s
  | _ => none

/-- The truth value of a node; none for the empty value or a mistake. -/
def readBool (d : Yaml.Document) (n : Yaml.Node) : Decoding (Option Bool) :=
  Decoding.visit d n fun n => do
    match n with
    | .scalar _ tag text =>
      let datum ← Decoding.datum tag text
      let value := boolOfDatum? datum
      if value.isNone && datum ≠ .nothing then noteWrongKind .bool n
      return value
    | n =>
      noteWrongKind .bool n
      return none

/-- The text of a node; none for the empty value or a mistake. Values of other kinds are taken as
they are written. -/
def readText (d : Yaml.Document) (n : Yaml.Node) : Decoding (Option Bytes) :=
  Decoding.visit d n fun n => do
    match n with
    | .scalar _ tag text =>
      match ← Decoding.datum tag text with
      | .nothing => return none
      | .text s => return some s
      | _ => return some text
    | n =>
      noteWrongKind .text n
      return none

/-- Give a setting its value. -/
def assign (d : Yaml.Document) (s : Settings) (name : Bytes) (value : Yaml.Node) :
    Decoding Settings := do
  if name = bytes "verbose" then return { s with verbose := (← readBool d value).getD s.verbose }
  else if name = bytes "color" then return { s with color := (← readBool d value).getD s.color }
  else if name = bytes "log_level" then
    return { s with logLevel := (← readText d value).getD s.logLevel }
  else if name = bytes "prompt" then return { s with prompt := (← readText d value).getD s.prompt }
  else if name = bytes "history" then
    return { s with history := (← readText d value).getD s.history }
  else return s

/-! ## Entries -/

def isMerge : Yaml.Node → Bool
  | .scalar _ tag text => tag = .merge && text = bytes "<<"
  | _ => false

/-- What decoding the entries of a mapping has come to. -/
structure Progress where
  settings : Settings
  /-- For a mapping that is merged into another: the names that are taken. -/
  taken : Option (List Bytes)
  /-- The settings that were given in this mapping. -/
  given : List Bytes
  /-- The value to be merged. -/
  merged : Option Yaml.Node

/-- Decode an entry. An entry without a name is ignored, and so is one whose name is taken. -/
def decodeEntry (d : Yaml.Document) (p : Progress) (key value : Yaml.Node) :
    Decoding Progress := do
  if isMerge key then return { p with merged := some value }
  match ← readText d key with
  | none => return p
  | some name =>
    if p.taken.any (·.contains name) then return p
    let p := { p with taken := p.taken.map (name :: ·) }
    if !names.contains name then
      Decoding.note [.unknownSetting key.line name]
      return p
    else if p.given.contains name then
      Decoding.note [.repeatedSetting key.line name]
      return p
    else
      let settings ← assign d p.settings name value
      return { p with settings, given := name :: p.given }

def decodeEntries (d : Yaml.Document) : Progress → List (Yaml.Node × Yaml.Node) → Decoding Progress
  | p, [] => return p
  | p, (key, value) :: entries => do
    let p ← decodeEntry d p key value
    decodeEntries d p entries

/-! ## Values of any kind -/

/-- The nodes to be merged for a value. -/
def mergedNodes : Yaml.Node → List Yaml.Node
  | .list _ _ items => items
  | n => [n]

mutual

/-- Decode a node of any kind, and return whether it has a value. -/
def decodeAny (fuel : Nat) (d : Yaml.Document) (n : Yaml.Node) : Decoding Bool :=
  match fuel with
  | 0 => return true
  | fuel + 1 => Decoding.visit d n fun n => do
    match n with
    | .scalar _ tag text =>
      discard (Decoding.datum tag text)
      return true
    | .list _ _ items =>
      decodeAnyItems fuel d items
      return true
    | .mapping _ _ entries =>
      match repeatedNames (entries.map (·.1)) with
      | [] =>
        decodeAnyEntries fuel d entries
        return true
      | mistakes =>
        Decoding.note mistakes
        return false
    | .alias _ _ _ _ => return true
termination_by structural fuel

def decodeAnyItems (fuel : Nat) (d : Yaml.Document) (items : List Yaml.Node) : Decoding Unit :=
  match fuel with
  | 0 => return
  | fuel + 1 => do
    match items with
    | [] => return
    | item :: items =>
      discard (decodeAny fuel d item)
      decodeAnyItems fuel d items
termination_by structural fuel

/-- Decode entries of any kind. Lists and mappings are no names. -/
def decodeAnyEntries (fuel : Nat) (d : Yaml.Document) (entries : List (Yaml.Node × Yaml.Node)) :
    Decoding Unit :=
  match fuel with
  | 0 => return
  | fuel + 1 => do
    match entries with
    | [] => return
    | (key, value) :: entries =>
      if isMerge key then
        if !(mergedNodes value).all fun n => (d.follow n).isMapping then throw .mergeValue
        decodeAnyItems fuel d (mergedNodes value)
      else if ← decodeAny fuel d key then
        if (d.follow key).isCollection then throw .incomparableName
        discard (decodeAny fuel d value)
      decodeAnyEntries fuel d entries
termination_by structural fuel

end

/-- The name that a key gives to an entry, if it is a text. -/
def nameOf? (fuel : Nat) (d : Yaml.Document) (key : Yaml.Node) : Decoding (Option Bytes) := do
  match d.follow key with
  | .scalar _ tag text =>
    discard (decodeAny fuel d key)
    match ← Decoding.datum tag text with
    | .text s => return some s
    | _ => return none
  | _ =>
    if ← decodeAny fuel d key then throw .incomparableName
    return none

/-- The names in a mapping, which those merged into it cannot give again. -/
def ownNames (fuel : Nat) (d : Yaml.Document) :
    List (Yaml.Node × Yaml.Node) → Decoding (List Bytes)
  | [] => return []
  | (key, _) :: entries => do
    let name ← nameOf? fuel d key
    let names ← ownNames fuel d entries
    return name.toList ++ names

/-! ## Mappings -/

mutual

/-- Decode a mapping on top of settings, and return also the names that are taken then. -/
def decodeMapping (fuel : Nat) (d : Yaml.Document) (taken : Option (List Bytes)) (s : Settings)
    (entries : List (Yaml.Node × Yaml.Node)) : Decoding (Settings × Option (List Bytes)) :=
  match fuel with
  | 0 => return (s, taken)
  | fuel + 1 => do
    match repeatedNames (entries.map (·.1)) with
    | [] =>
      let p ← decodeEntries d ⟨s, taken, [], none⟩ entries
      match p.merged with
      | none => return (p.settings, p.taken)
      | some value =>
        let taken ←
          match p.taken with
          | some taken => pure taken
          | none => ownNames fuel d entries
        mergeAll fuel d (some taken) p.settings (mergedNodes value)
    | mistakes =>
      Decoding.note mistakes
      return (s, taken)
termination_by structural fuel

/-- Merge mappings in order. -/
def mergeAll (fuel : Nat) (d : Yaml.Document) (taken : Option (List Bytes)) (s : Settings)
    (values : List Yaml.Node) : Decoding (Settings × Option (List Bytes)) :=
  match fuel with
  | 0 => return (s, taken)
  | fuel + 1 => do
    match values with
    | [] => return (s, taken)
    | value :: values =>
      match d.follow value with
      | .mapping _ _ entries =>
        let (s, taken) ← Decoding.visit d value fun _ => decodeMapping fuel d taken s entries
        mergeAll fuel d taken s values
      | _ => throw .mergeValue
termination_by structural fuel

end

/-- The settings of a document. -/
def ofDocument (d : Yaml.Document) : Decoding Settings := do
  Decoding.count
  Decoding.visit d d.root fun n => do
    match n with
    | .mapping _ _ entries => return (← decodeMapping (d.limit * d.limit) d none default entries).1
    | .scalar _ tag text =>
      if (← Decoding.datum tag text) ≠ .nothing then noteWrongKind .settings n
      return default
    | n =>
      noteWrongKind .settings n
      return default

end Settings

end ExprLang
