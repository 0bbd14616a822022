import MarkdownTree.Mdast.Node
import MarkdownTree.Reading.Log
import MarkdownTree.Tree

/-!
The definitions of a syntax tree, by identifier. They are found in every node at every depth, those
that documents have no node for included. Of several with one identifier the first in the order of
the tree counts, and each later one is logged.
-/

namespace MarkdownTree

open Mdast (Node)

/-- The targets of the definitions found so far, one for each identifier. -/
structure Definitions where
  targets : List (String × Target) := []

/-- Where a definition points. -/
def Mdast.Definition.target (d : Mdast.Definition) : Target := ⟨d.title, some d.url⟩

namespace Definitions

/-- The target for an identifier. -/
def find? (table : Definitions) (identifier : String) : Option Target :=
  table.targets.lookup identifier

/-- Adds a definition, unless its identifier has one. -/
def add (table : Definitions) (d : Mdast.Definition) : Logged Definitions :=
  match table.find? d.identifier with
  | some _ => do
    Logged.event (.duplicateDefinition d.identifier)
    pure table
  | none => pure ⟨(d.identifier, d.target) :: table.targets⟩

mutual

/-- Adds the definitions of a node and its descendants, in the order of the tree. -/
def collect (table : Definitions) : Node → Logged Definitions
  | .parent _ children _ => collectAll table children
  | .leaf (.definition d) _ => table.add d
  | .leaf _ _ => pure table

/-- Adds the definitions of nodes in order. -/
def collectAll (table : Definitions) : List Node → Logged Definitions
  | [] => pure table
  | node :: nodes => do
    let table ← collect table node
    collectAll table nodes

end

end Definitions

end MarkdownTree
