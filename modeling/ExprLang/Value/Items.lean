import ExprLang.Value.Basic

/-!
# Items

What a loop runs over: the elements of a list, the characters of a string, or the integers of a
range from its start up to but not including its end. A range is never written out.
-/

namespace ExprLang

inductive Items
  | values (items : List Value)
  | span (start : Int64) (count : Nat)

namespace Items

/-- `count` integers from `start` on. -/
def spanList (start : Int64) : Nat → List Value
  | 0 => []
  | count + 1 => .int start :: spanList (start + 1) count

def toList : Items → List Value
  | .values items => items
  | .span start count => spanList start count

/-- The items of a range. -/
def ofRange (start stop : Int64) : Items := .span start (stop.toInt - start.toInt).toNat

/-- The characters of a string, each as a string. -/
def ofString (s : Bytes) : Items :=
  .values ((Text.Utf8.chars s).map fun c => .string (Text.Utf8.encode c))

end Items

def Value.items? : Value → Option Items
  | .list items => some (.values items)
  | .range start stop => some (.ofRange start stop)
  | .string s => some (.ofString s)
  | _ => none

end ExprLang
