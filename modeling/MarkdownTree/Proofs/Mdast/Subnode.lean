import MarkdownTree.Mdast.Node

/-!
All nodes of a syntax tree, in pre-order: a node before everything below it. The definitions of a
tree are found among them, those below nodes of any kind included. What is proved of all nodes wherever
they stand is proved by induction over the children of a node (`Node.induction`).
-/

namespace MarkdownTree.Mdast

/-- What holds of the leaves, and of a parent if it holds of its children, holds of all nodes. -/
@[elab_as_elim]
theorem Node.induction {P : Node → Prop} (leaf : ∀ kind position, P (.leaf kind position))
    (parent : ∀ kind children position, (∀ child ∈ children, P child) →
      P (.parent kind children position)) : ∀ node, P node
  | .leaf kind position => leaf kind position
  | .parent kind children position =>
    parent kind children position fun child _ => Node.induction leaf parent child

mutual

/-- A node and all nodes below it, in pre-order. -/
def Node.all : Node → List Node
  | .parent kind children position => .parent kind children position :: Node.allOf children
  | .leaf kind position => [.leaf kind position]

/-- All nodes of a list of trees, in order. -/
def Node.allOf : List Node → List Node
  | [] => []
  | node :: nodes => Node.all node ++ Node.allOf nodes

end

def Node.definition? : Node → Option Definition
  | .leaf (.definition d) _ => some d
  | _ => none

/-- The definitions of a tree, in pre-order. -/
def Node.definitions (node : Node) : List Definition := node.all.filterMap Node.definition?

/-- The definitions of a list of trees, in order. -/
def Node.definitionsOf (nodes : List Node) : List Definition :=
  (Node.allOf nodes).filterMap Node.definition?

/-- The tree has a definition with the given identifier. -/
def Node.defines (node : Node) (identifier : String) : Bool :=
  node.definitions.any (·.identifier == identifier)

theorem Node.definitions_parent (kind : Parent) (children : List Node)
    (position : Option Position) :
    (Node.parent kind children position).definitions = Node.definitionsOf children := by
  rw [definitions, all, List.filterMap_cons_none rfl, definitionsOf]

theorem Node.definitionsOf_cons (node : Node) (nodes : List Node) :
    Node.definitionsOf (node :: nodes) = node.definitions ++ Node.definitionsOf nodes := by
  rw [definitionsOf, allOf, List.filterMap_append, definitions, definitionsOf]

theorem Node.definition?_eq_some {node : Node} {d : Definition}
    (h : node.definition? = some d) : ∃ position, node = .leaf (.definition d) position := by
  cases node with
  | parent kind children position => cases h
  | leaf kind position =>
    cases kind with
    | definition d' =>
      cases h
      exact ⟨position, rfl⟩
    | _ => cases h

end MarkdownTree.Mdast
