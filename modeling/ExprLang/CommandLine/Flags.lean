import ExprLang.Text.Quoted

/-!
# Flags

Flags come before the first argument that is none. A flag is written with one dash or two, and its
value follows after `=` or, for a flag that takes a text, as the next argument. A switch alone is
on. Two dashes alone end the flags.
-/

namespace ExprLang.CommandLine

/-- The flags given; a flag given more than once has its last value. -/
structure Flags where
  verbose : Option Bool
  noColor : Option Bool
  logLevel : Option Bytes
  deriving DecidableEq, Repr

inductive FlagError
  | help
  | badForm (argument : Bytes)
  | unknown (name : Bytes)
  | needsValue (name : Bytes)
  | badSwitch (name value : Bytes)
  deriving DecidableEq, Repr

/-- What is said before the usage; nothing when the usage was asked for. -/
def FlagError.message? : FlagError → Option Bytes
  | .help => none
  | .badForm argument => some (bytes "bad flag syntax: " ++ argument)
  | .unknown name => some (bytes "flag provided but not defined: -" ++ name)
  | .needsValue name => some (bytes "flag needs an argument: -" ++ name)
  | .badSwitch name value =>
    some (bytes "invalid boolean value " ++ Text.quote value ++ bytes " for -" ++ name ++
      bytes ": parse error")

def onWords : List Bytes :=
  [bytes "1", bytes "t", bytes "T", bytes "TRUE", bytes "true", bytes "True"]

def offWords : List Bytes :=
  [bytes "0", bytes "f", bytes "F", bytes "FALSE", bytes "false", bytes "False"]

/-- Read the value of a switch. -/
def readSwitch? (s : Bytes) : Option Bool :=
  if onWords.contains s then some true
  else if offWords.contains s then some false
  else none

/-- An argument as it is written. -/
inductive Argument
  | flag (name : Bytes) (value : Option Bytes)
  | endOfFlags
  | other
  | malformed
  deriving DecidableEq, Repr

/-- Split what follows the dashes of a flag. -/
def Argument.ofBody (body : Bytes) : Argument :=
  match body with
  | [] => .malformed
  | b :: _ =>
    if b = byte '-' ∨ b = byte '=' then .malformed
    else
      let name := body.takeWhile (· != byte '=')
      match body.drop name.length with
      | [] => .flag name none
      | _ :: value => .flag name (some value)

def Argument.ofText (s : Bytes) : Argument :=
  match s with
  | a :: b :: rest =>
    if a ≠ byte '-' then .other
    else if b = byte '-' then if rest.isEmpty then .endOfFlags else .ofBody rest
    else .ofBody (b :: rest)
  | _ => .other

namespace Flags

def empty : Flags := ⟨none, none, none⟩

/-- Read flags up to the first other argument, on top of the flags read before. -/
def read (f : Flags) : List Bytes → Except FlagError (Flags × List Bytes)
  | [] => .ok (f, [])
  | argument :: rest =>
    match Argument.ofText argument with
    | .other => .ok (f, argument :: rest)
    | .endOfFlags => .ok (f, rest)
    | .malformed => .error (.badForm argument)
    | .flag name value =>
      if name = bytes "verbose" then
        match readSwitch? (value.getD (bytes "true")) with
        | some b => read { f with verbose := some b } rest
        | none => .error (.badSwitch name (value.getD []))
      else if name = bytes "no-color" then
        match readSwitch? (value.getD (bytes "true")) with
        | some b => read { f with noColor := some b } rest
        | none => .error (.badSwitch name (value.getD []))
      else if name = bytes "log-level" then
        match value with
        | some level => read { f with logLevel := some level } rest
        | none =>
          match rest with
          | level :: rest => read { f with logLevel := some level } rest
          | [] => .error (.needsValue name)
      else if name = bytes "help" ∨ name = bytes "h" then .error .help
      else .error (.unknown name)

end Flags

end ExprLang.CommandLine
