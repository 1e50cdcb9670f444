import ExprLang.Folder

/-!
# Settings

Settings have defaults, and can be changed by a settings file. Where that file and the history file
are depends on the environment.
-/

namespace ExprLang

structure Settings where
  verbose : Bool
  color : Bool
  logLevel : Bytes
  prompt : Bytes
  /-- The history file; empty for the one in the home directory. -/
  history : Bytes
  deriving DecidableEq, Repr

namespace Settings

def default : Settings := ⟨false, true, bytes "fatal", bytes "> ", []⟩

/-- The names of settings in a settings file. -/
def names : List Bytes := ["verbose", "color", "log_level", "prompt", "history"].map bytes

/-! ## Where files are -/

def fileName : Bytes := bytes ".henry.yaml"

def historyName : Bytes := bytes ".henry_history"

/-- The environment of a command; empty values stand for none. -/
structure Environment where
  home : Bytes
  /-- A settings file to use instead of the one in the home directory. -/
  settingsFile : Bytes
  deriving DecidableEq, Repr

/-- The settings file, if there can be one. -/
def filePath? (env : Environment) : Option Bytes :=
  if !env.settingsFile.isEmpty then some env.settingsFile
  else if env.home.isEmpty then none
  else some (Path.join env.home fileName)

def historyPath? (env : Environment) (s : Settings) : Option Bytes :=
  if !s.history.isEmpty then some s.history
  else if env.home.isEmpty then none
  else some (Path.join env.home historyName)

end Settings

end ExprLang
