import ExprLang.Interpreter

/-!
# Showing a run

A run is shown on two streams: what it printed and its value on the output, log lines and the
lines of its error on the error stream.
-/

namespace ExprLang

structure Console where
  /-- The least severe level that is logged. -/
  level : LogLevel
  /-- Whether error lines are red. -/
  colored : Bool

/-- Text for the output and the error stream. -/
structure Shown where
  out : Bytes
  err : Bytes
  deriving DecidableEq, Repr

def lineText (line : Bytes) : Bytes := line ++ [Text.newline]

namespace Console

def errorLine (c : Console) (line : Bytes) : Bytes :=
  if c.colored then bytes "\x1b[31m" ++ line ++ bytes "\x1b[0m" else line

/-- The text of an error, each of its lines on a line of its own. -/
def errorLines (c : Console) (text : Bytes) : Bytes :=
  (Text.splitOn Text.newline text).flatMap fun line => lineText (c.errorLine line)

def shown (c : Console) (r : Run) : Shown where
  out :=
    r.printed.flatMap lineText ++
      match r.outcome with
      | .value v => lineText v.text
      | _ => []
  err :=
    logLines c.level r.log ++
      match r.outcome.errorText? with
      | some text => c.errorLines text
      | none => []

end Console

end ExprLang
