import ExprLang.Settings.Decoding
import ExprLang.Yaml.Composer

/-!
# Settings files

A settings file that does not exist, or is without content, changes nothing.
-/

namespace ExprLang.Settings

/-- Read the text of a settings file. -/
def ofText (text : Bytes) : Except SettingsFault Settings :=
  match Yaml.read text with
  | .error fault => .error (.syntaxFault fault)
  | .ok none => .ok default
  | .ok (some document) =>
    match (ofDocument document).run .start with
    | .error refusal => .error (.refusal refusal)
    | .ok (s, tally) => if tally.mistakes.isEmpty then .ok s else .error (.mistakes tally.mistakes)

/-- Read a settings file with the given contents, and check its log level. -/
def ofContents (contents : Except FileError Bytes) : Except SettingsFault Settings :=
  match contents with
  | .error .missing => .ok default
  | .error e => .error (.file e)
  | .ok text =>
    match ofText text with
    | .error fault => .error fault
    | .ok s =>
      if (LogLevel.ofName? s.logLevel).isSome then .ok s else .error (.unknownLevel s.logLevel)

/-- Read the settings file with the given name and contents. -/
def load (name : Bytes) (contents : Except FileError Bytes) : Except SettingsError Settings :=
  match ofContents contents with
  | .error fault => .error ⟨name, fault⟩
  | .ok s => .ok s

end ExprLang.Settings
