import ExprLang.Folder
import ExprLang.Log
import ExprLang.Yaml.Basic
import ExprLang.Yaml.Datum

/-!
# What is wrong with a settings file

A mistake is a name that is no setting, a name given twice or a value of the wrong kind. Mistakes
are listed together. A refusal ends the reading of the file at once.
-/

namespace ExprLang

/-- Kinds of values a file is decoded to. -/
inductive SettingKind
  | bool | text | settings
  deriving DecidableEq, Repr

def SettingKind.name : SettingKind → Bytes
  | .bool => bytes "bool"
  | .text => bytes "string"
  | .settings => bytes "main.config"

/-! ## Mistakes -/

inductive SettingMistake
  | unknownSetting (line : Nat) (name : Bytes)
  | repeatedSetting (line : Nat) (name : Bytes)
  | repeatedName (line : Nat) (name : Bytes) (firstLine : Nat)
  | wrongKind (line : Nat) (tag : Yaml.Tag) (value : Bytes) (kind : SettingKind)
  deriving DecidableEq, Repr

namespace SettingMistake

/-- A value as it is shown: a long one is cut. -/
def excerpt (value : Bytes) : Bytes :=
  bytes " \x60" ++ (if 10 < value.length then value.take 7 ++ bytes "..." else value) ++
    bytes "\x60"

def message : SettingMistake → Bytes
  | .unknownSetting line name =>
    bytes "line " ++ Text.decimal line ++ bytes ": field " ++ name ++
      bytes " not found in type " ++ SettingKind.settings.name
  | .repeatedSetting line name =>
    bytes "line " ++ Text.decimal line ++ bytes ": field " ++ name ++
      bytes " already set in type " ++ SettingKind.settings.name
  | .repeatedName line name firstLine =>
    bytes "line " ++ Text.decimal line ++ bytes ": mapping key " ++ Text.quote name ++
      bytes " already defined at line " ++ Text.decimal firstLine
  | .wrongKind line tag value kind =>
    bytes "line " ++ Text.decimal line ++ bytes ": cannot unmarshal " ++ tag.name ++
      (if tag = .list ∨ tag = .mapping then value else excerpt value) ++
      bytes " into " ++ kind.name

end SettingMistake

/-! ## Refusals -/

inductive SettingRefusal
  | value (r : Yaml.Refusal)
  | selfContained (name : Bytes)
  | mergeValue
  | excessiveAliasing
  /-- Where mappings are merged, names are compared, which cannot be done with lists and mappings. -/
  | incomparableName
  deriving DecidableEq, Repr

/-- The text of a refusal. There is none where the whole call breaks down. -/
def SettingRefusal.message? : SettingRefusal → Option Bytes
  | .value r => some r.message
  | .selfContained name => some (bytes "anchor '" ++ name ++ bytes "' value contains itself")
  | .mergeValue => some (bytes "map merge requires map or sequence of maps as the value")
  | .excessiveAliasing => some (bytes "document contains excessive aliasing")
  | .incomparableName => none

/-! ## Errors -/

/-- Why a settings file is of no use. -/
inductive SettingsFault
  | file (e : FileError)
  | syntaxFault (f : Yaml.Fault)
  | refusal (r : SettingRefusal)
  | mistakes (ms : List SettingMistake)
  | unknownLevel (level : Bytes)

structure SettingsError where
  /-- The name of the settings file. -/
  name : Bytes
  fault : SettingsFault

namespace SettingsError

def mistakesText (mistakes : List SettingMistake) : Bytes :=
  bytes "unmarshal errors:\n  " ++
    (bytes "\n  ").intercalate (mistakes.map SettingMistake.message)

/-- The text of an error. There is none where the whole call breaks down. -/
def message? (e : SettingsError) : Option Bytes :=
  let parse (problem : Bytes) : Bytes := bytes "config: parse " ++ e.name ++ bytes ": " ++ problem
  match e.fault with
  | .file .isDirectory =>
    some (parse (bytes "yaml: input error: " ++ FileError.isDirectory.message e.name))
  | .file f => some (bytes "config: " ++ f.message e.name)
  | .syntaxFault f => some (parse f.message)
  | .refusal r => r.message?.map fun problem => parse (bytes "yaml: " ++ problem)
  | .mistakes ms => some (parse (bytes "yaml: " ++ mistakesText ms))
  | .unknownLevel level =>
    some (bytes "config: " ++ e.name ++ bytes ": " ++ LogLevel.unknownMessage level)

end SettingsError

end ExprLang
