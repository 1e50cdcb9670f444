import ExprLang.Value.Basic
import ExprLang.Number.Integer
import ExprLang.Number.Shortest

/-!
# The text of a value

What `print` shows. A string is shown bare on its own and between quotes inside a list.
-/

namespace ExprLang.Value

mutual

def text : Value → Bytes
  | .int n => Number.intText n
  | .float x => Number.floatText x
  | .string s => s
  | .bool b => bytes (if b then "true" else "false")
  | .null | .absent => bytes "null"
  | .list items => bytes "[" ++ (bytes ", ").intercalate (itemTexts items) ++ bytes "]"
  | .range start stop => Number.intText start ++ bytes " to " ++ Number.intText stop
  | .function _ params _ => bytes "function(" ++ (bytes " ").intercalate params ++ bytes ")"
  | .builtin which _ => bytes "<builtin " ++ which.name ++ bytes ">"
  | .foreign text => text

def itemTexts : List Value → List Bytes
  | [] => []
  | .string s :: items => (byte '"' :: s ++ [byte '"']) :: itemTexts items
  | v :: items => v.text :: itemTexts items

end

end ExprLang.Value
