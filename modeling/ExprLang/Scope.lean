import ExprLang.Value.Basic

/-!
# Scopes

A frame is the list of its definitions, the latest first. A scope is a chain of frames: lookup goes
from the innermost frame outwards, definitions go into the innermost one.
-/

namespace ExprLang

abbrev Frame := List (Bytes × Value)

namespace Frame

def define (name : Bytes) (value : Value) (frame : Frame) : Frame := (name, value) :: frame

/-- The builtins of a set of globals. -/
def globals (root : Root) : Frame := Builtin.all.map fun b => (b.name, .builtin b root)

/-- Parameters bound to arguments; of two with one name the later counts. -/
def ofParams (params : List Bytes) (args : List Value) : Frame := (params.zip args).reverse

end Frame

structure Scope where
  top : Frame
  outer : List Frame

namespace Scope

def frames (s : Scope) : List Frame := s.top :: s.outer

def lookup (s : Scope) (name : Bytes) : Option Value :=
  s.frames.findSome? fun frame => List.lookup name frame

def define (s : Scope) (name : Bytes) (value : Value) : Scope :=
  { s with top := s.top.define name value }

def push (s : Scope) (frame : Frame) : Scope := ⟨frame, s.frames⟩

/-- The scope around the innermost frame. -/
def pop (s : Scope) : Scope :=
  match s.outer with
  | [] => s
  | frame :: outer => ⟨frame, outer⟩

@[simp] theorem pop_push (s : Scope) (frame : Frame) : (s.push frame).pop = s := rfl

end Scope

end ExprLang
