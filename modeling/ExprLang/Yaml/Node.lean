import ExprLang.Yaml.Tag

/-!
# Documents

A document is a tree of scalars, lists, mappings and aliases. Each node keeps the line it starts
on, counted from one. An alias stands for an earlier node that was given a name; since names can be
given again, it refers to the node by number. Aliases have numbers too, to tell them apart.
-/

namespace ExprLang.Yaml

inductive Node
  | scalar (line : Nat) (tag : Tag) (text : Bytes)
  | list (line : Nat) (tag : Tag) (items : List Node)
  | mapping (line : Nat) (tag : Tag) (entries : List (Node × Node))
  | alias (line : Nat) (number : Nat) (name : Bytes) (target : Nat)

namespace Node

def line : Node → Nat
  | .scalar line _ _ => line
  | .list line _ _ => line
  | .mapping line _ _ => line
  | .alias line _ _ _ => line

def isMapping : Node → Bool
  | .mapping _ _ _ => true
  | _ => false

def isCollection : Node → Bool
  | .list _ _ _ => true
  | n => n.isMapping

/-- The node where a value is left out. -/
def empty (line : Nat) : Node := .scalar line .null []

/-- A scalar without a tag. A quoted one is text. -/
def untagged (line : Nat) (isPlain : Bool) (text : Bytes) : Node :=
  let tag : Tag :=
    if !isPlain then .text else if text = bytes "<<" then .merge else plainTag text
  .scalar line tag text

end Node

structure Document where
  root : Node
  /-- The nodes that aliases refer to, with their numbers. -/
  anchored : List (Nat × Node)
  /-- More than the number of nodes. -/
  limit : Nat

namespace Document

def target? (d : Document) (number : Nat) : Option Node := d.anchored.lookup number

/-- The node that an alias stands for. Aliases do not stand for aliases. -/
def follow (d : Document) (n : Node) : Node :=
  match n with
  | .alias _ _ _ target => (d.target? target).getD n
  | n => n

end Document

end ExprLang.Yaml
