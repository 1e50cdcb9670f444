import ExprLang.Interpreter

/-!
# Stores of frames

A host can make frames of its own, each with or without an earlier frame around it, define names in
any of them and evaluate statements in them. Frames are numbered in the order they were made.
Evaluation changes only the frame it is asked to run in.
-/

namespace ExprLang

/-- A frame and the number of the frame around it. -/
structure StoredFrame where
  frame : Frame
  parent : Option Nat

structure Store where
  frames : List StoredFrame
  /-- The next unused identity for functions and sets of globals. -/
  fresh : Nat

namespace Store

def empty : Store := ⟨[], 0⟩

def add (s : Store) (frame : StoredFrame) : Store := { s with frames := s.frames ++ [frame] }

/-- A new frame without definitions. -/
def newFrame (s : Store) (parent : Option Nat) : Store := s.add ⟨[], parent⟩

/-- A new root frame with the builtins. -/
def newGlobals (s : Store) : Store :=
  { s.add ⟨.globals ⟨s.fresh, false⟩, none⟩ with fresh := s.fresh + 1 }

/-- The frames from the given one outwards, at most `fuel` of them. -/
def chainUpTo (s : Store) : Nat → Nat → List Frame
  | 0, _ => []
  | fuel + 1, n =>
    match s.frames[n]? with
    | none => []
    | some f => f.frame :: (f.parent.map (s.chainUpTo fuel)).getD []

/-- The frames from the given one outwards. A frame stands on an earlier one, so there are at most
as many as its number and itself. -/
def chain (s : Store) (n : Nat) : List Frame := s.chainUpTo (n + 1) n

def lookup (s : Store) (n : Nat) (name : Bytes) : Option Value :=
  (s.chain n).findSome? fun frame => List.lookup name frame

def setFrame (s : Store) (n : Nat) (frame : Frame) : Store :=
  { s with frames := s.frames.modify n fun f => { f with frame } }

def define (s : Store) (n : Nat) (name : Bytes) (value : Value) : Store :=
  { s with frames := s.frames.modify n fun f => { f with frame := f.frame.define name value } }

/-- Evaluate a statement in a frame. -/
def evaluateIn (fuel : Nat) (s : Store) (n : Nat) (e : Expr) : Outcome × List Bytes × Store :=
  let scope : Scope :=
    match s.chain n with
    | [] => ⟨[], []⟩
    | top :: outer => ⟨top, outer⟩
  let (outcome, m) := Machine.evaluate fuel ⟨scope, [], s.fresh⟩ e
  (outcome, m.output, { s.setFrame n m.scope.top with fresh := m.fresh })

/-- Evaluate a statement in globals of its own that print nowhere. -/
def evaluateAlone (fuel : Nat) (s : Store) (e : Expr) : Outcome × Store :=
  let (outcome, m) := Machine.evaluate fuel (.start ⟨s.fresh, true⟩ (s.fresh + 1)) e
  (outcome, { s with fresh := m.fresh })

end Store

end ExprLang
