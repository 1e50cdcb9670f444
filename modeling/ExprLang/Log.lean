import ExprLang.Text.LowerCase
import ExprLang.Text.Quoted

/-!
# The diagnostics log

An entry has a level, a message and named fields. A log shows the entries at its level or a more
severe one, each on one line; a text with other characters than letters, digits and a few marks is
quoted there.
-/

namespace ExprLang

/-- Levels, the most severe first. -/
inductive LogLevel
  | panic | fatal | error | warn | info | debug | trace
  deriving DecidableEq, Repr

namespace LogLevel

def rank : LogLevel → Nat
  | .panic => 0
  | .fatal => 1
  | .error => 2
  | .warn => 3
  | .info => 4
  | .debug => 5
  | .trace => 6

def name : LogLevel → Bytes
  | .panic => bytes "panic"
  | .fatal => bytes "fatal"
  | .error => bytes "error"
  | .warn => bytes "warning"
  | .info => bytes "info"
  | .debug => bytes "debug"
  | .trace => bytes "trace"

/-- The level with the given name, in any case. -/
def ofName? (s : Bytes) : Option LogLevel :=
  [(bytes "panic", .panic), (bytes "fatal", .fatal), (bytes "error", .error),
    (bytes "warn", .warn), (bytes "warning", .warn), (bytes "info", .info),
    (bytes "debug", .debug), (bytes "trace", .trace)].lookup (Text.lower s)

/-- What is said about a name that is no level. -/
def unknownMessage (s : Bytes) : Bytes := bytes "not a valid logrus Level: " ++ Text.quote s

end LogLevel

inductive LogField
  | number (n : Int)
  | text (s : Bytes)
  deriving DecidableEq, Repr

structure LogEntry where
  level : LogLevel
  message : Bytes
  /-- In the order of their names. -/
  fields : List (Bytes × LogField)
  deriving DecidableEq, Repr

namespace LogEntry

def isShown (level : LogLevel) (e : LogEntry) : Bool := e.level.rank ≤ level.rank

/-- Characters that need no quotes. -/
def isPlain (b : UInt8) : Bool :=
  (byte 'a' ≤ b && b ≤ byte 'z') || (byte 'A' ≤ b && b ≤ byte 'Z') ||
    (byte '0' ≤ b && b ≤ byte '9') || (bytes "-._/@^+").contains b

def quoteIfNeeded (s : Bytes) : Bytes := if s.all isPlain then s else Text.quote s

def fieldText : LogField → Bytes
  | .number n => Text.decimalInt n
  | .text s => quoteIfNeeded s

/-- The entry on one line. -/
def line (e : LogEntry) : Bytes :=
  bytes "level=" ++ e.level.name ++ bytes " msg=" ++ quoteIfNeeded e.message ++
    (e.fields.flatMap fun f => bytes " " ++ f.1 ++ bytes "=" ++ fieldText f.2) ++ bytes "\n"

end LogEntry

/-- The lines a log at the given level shows. -/
def logLines (level : LogLevel) (entries : List LogEntry) : Bytes :=
  (entries.filter (LogEntry.isShown level)).flatMap LogEntry.line

end ExprLang
