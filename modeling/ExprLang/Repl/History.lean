import ExprLang.Text.Line
import ExprLang.Text.Utf8

/-!
# The history of an interactive loop

Entries are kept oldest first, up to a limit beyond which the oldest is dropped. An entry equal to
the one before it is not added. A history is stored one entry to a line.
-/

namespace ExprLang.Repl

abbrev History := List Bytes

namespace History

def limit : Nat := 1000

def push (h : History) (entry : Bytes) : History :=
  let longer := h ++ [entry]
  if longer.length ≤ limit then longer else longer.drop 1

def add (h : History) (entry : Bytes) : History :=
  if h.getLast? = some entry then h else h.push entry

/-- Read a stored history, up to a line that is too long or not valid UTF-8. -/
def ofText (text : Bytes) : History :=
  ((Text.lines text).takeWhile fun line => line.isWhole && Text.Utf8.isValid line.text).foldl
    (fun h line => h.push line.text) []

def text (h : History) : Bytes := h.flatMap fun entry => entry ++ [Text.newline]

end History

end ExprLang.Repl
