import PatentFilter.Yaml.Token

/-!
# Nodes of structured text

A document is a tree of scalars, sequences and mappings. A node may stand for another one that
carries an anchor; the table of anchors tells which. An anchor is known by number: the count of
different anchor names before it.
-/

namespace PatentFilter.Yaml

inductive Node where
  | scalar (text : String) (style : Style) (tag : Option Tag)
  | sequence (items : List Node) (tag : Option Tag)
  | mapping (entries : List (Node × Node)) (tag : Option Tag)
  | reference (anchor : Nat)
  deriving Inhabited

namespace Node

def empty (tag : Option Tag) : Node := .scalar "" .plain tag

mutual

/-- The number of marks that a node is made of: one for a leaf, two for a collection and those
of its contents. -/
def marks : Node → Nat
  | scalar .. => 1
  | reference _ => 1
  | sequence items _ => 2 + marksOfItems items
  | mapping entries _ => 2 + marksOfEntries entries

def marksOfItems : List Node → Nat
  | [] => 0
  | n :: ns => n.marks + marksOfItems ns

def marksOfEntries : List (Node × Node) → Nat
  | [] => 0
  | (k, v) :: es => k.marks + v.marks + marksOfEntries es

end

end Node

/-- A document, without a root when the text holds nothing. -/
structure Document where
  root : Option Node
  anchors : List (Nat × Node)

def Document.marks (d : Document) : Nat :=
  match d.root with
  | some n => n.marks
  | none => 1

end PatentFilter.Yaml
