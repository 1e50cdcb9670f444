import ExprLang.Text.Base64
import ExprLang.Yaml.Node

/-!
# The values of scalars

A scalar with a tag of its own has to spell a value of that kind. Texts can be given in base 64.
-/

namespace ExprLang.Yaml

/-- What a scalar stands for, as far as it matters to a reader of texts and truth values. -/
inductive Datum
  | nothing
  | bool (b : Bool)
  | text (s : Bytes)
  /-- A number or a point in time. -/
  | other
  deriving DecidableEq, Repr

/-- Why a scalar has no value. -/
inductive Refusal
  | invalidBase64
  | wrongTag (actual : Tag) (text : Bytes) (tag : Tag)
  deriving DecidableEq, Repr

def Refusal.message : Refusal → Bytes
  | .invalidBase64 => bytes "!!binary value contains invalid base64 data"
  | .wrongTag actual text tag =>
    bytes "cannot decode " ++ actual.name ++ bytes " \x60" ++ text ++ bytes "\x60 as a " ++
      tag.name

namespace Datum

/-- The value of a plain scalar with the given tag. -/
def ofPlain (tag : Tag) (text : Bytes) : Datum :=
  match tag with
  | .null => .nothing
  | .bool => .bool (trueWords.contains text)
  | .text => .text text
  | _ => .other

/-- Whether a plain scalar of one kind can be given a tag. An integer that has a sign, or is small
enough to have one, is also a float. -/
def agrees (actual tag : Tag) (text : Bytes) : Bool :=
  actual = tag ||
    (tag = .float && actual = .int && isSignedInt (text.filter (· ≠ byte '_')))

/-- The value of a scalar. Tags that are not known are ignored. -/
def ofScalar (tag : Tag) (text : Bytes) : Except Refusal Datum :=
  match tag with
  | .text => .ok (.text text)
  | .binary =>
    match Text.Base64.decode? text with
    | some s => .ok (.text s)
    | none => .error .invalidBase64
  | .null | .bool | .int | .float | .timestamp =>
    let actual := plainTagWith (tag = .timestamp) text
    if agrees actual tag text then .ok (ofPlain actual text)
    else .error (.wrongTag actual text tag)
  | _ => .ok (.text text)

end Datum

end ExprLang.Yaml
