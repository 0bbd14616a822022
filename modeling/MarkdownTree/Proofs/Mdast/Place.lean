import MarkdownTree.Proofs.Address
import MarkdownTree.Proofs.Mdast.Subnode

/-!
The places of the nodes of a syntax tree. Every node has an address, the nodes below kinds that documents
have no node for included. Main statement: `Node.places` lists each address once, in pre-order, with the
node that is there (`Node.placeListing`); so the definitions of a tree are listed with their addresses
(`Node.definitionListing`).
-/

namespace MarkdownTree.Mdast

open Address

/-! ### Finding a node -/

/-- The node at an address of a tree. -/
def Node.at? : Address → Node → Option Node
  | [], node => some node
  | i :: p, node => node.children[i]?.bind (Node.at? p)

@[simp] theorem Node.at?_nil (node : Node) : Node.at? [] node = some node := rfl

@[simp] theorem Node.at?_parent_cons (i : Nat) (p : Address) (kind : Parent) (children : List Node)
    (position : Option Position) :
    Node.at? (i :: p) (.parent kind children position) = children[i]?.bind (Node.at? p) := rfl

@[simp] theorem Node.at?_leaf_cons (i : Nat) (p : Address) (kind : Leaf)
    (position : Option Position) : Node.at? (i :: p) (.leaf kind position) = none := rfl

/-! ### Listing all nodes -/

mutual

/-- The nodes of a tree at an address, each with its own address. -/
def Node.places : Address → Node → List (Address × Node)
  | p, .parent kind children position =>
    (p, .parent kind children position) :: Node.placesAll p 0 children
  | p, .leaf kind position => [(p, .leaf kind position)]

/-- The nodes of trees in order, the first of which has a given index under an address. -/
def Node.placesAll : Address → Nat → List Node → List (Address × Node)
  | _, _, [] => []
  | p, i, node :: nodes => Node.places (p ++ [i]) node ++ Node.placesAll p (i + 1) nodes

end

mutual

/-- Without the addresses it is the listing that definitions are found in. -/
theorem Node.map_snd_places : ∀ (p : Address) (node : Node),
    (Node.places p node).map Prod.snd = node.all
  | p, .parent kind children position => by
    rw [places, List.map_cons, map_snd_placesAll p 0 children, all]
  | p, .leaf kind position => rfl

theorem Node.map_snd_placesAll : ∀ (p : Address) (i : Nat) (nodes : List Node),
    (Node.placesAll p i nodes).map Prod.snd = Node.allOf nodes
  | p, i, [] => rfl
  | p, i, node :: nodes => by
    rw [placesAll, List.map_append, map_snd_places (p ++ [i]) node,
      map_snd_placesAll p (i + 1) nodes, allOf]

end

theorem Node.placesAll_eq (p : Address) (i : Nat) (nodes : List Node) :
    Node.placesAll p i nodes = listChildren Node.places p i nodes := by
  induction nodes generalizing i with
  | nil => rfl
  | cons node nodes ih => rw [placesAll, ih, listChildren]

/-! ### The listing is complete and in pre-order -/

theorem Node.mem_places {q : Address} {found : Node} (p : Address) (node : Node) :
    (q, found) ∈ Node.places p node ↔ ∃ r, q = p ++ r ∧ Node.at? r node = some found := by
  induction node using Node.induction generalizing p with
  | leaf kind position =>
    rw [places, List.mem_singleton, exists_at?_iff (at?_nil _)]
    simp
  | parent kind children position ih =>
    rw [places, placesAll_eq, List.mem_cons, mem_listChildren ih, exists_at?_iff (at?_nil _)]
    simp [Option.bind_eq_some_iff]

theorem Node.prefix_of_mem_places {p : Address} {node : Node} {o : Address × Node}
    (h : o ∈ Node.places p node) : ∃ r, o.1 = p ++ r := by
  obtain ⟨r, hr, -⟩ := (mem_places p node).mp h
  exact ⟨r, hr⟩

theorem Node.pairwise_places (p : Address) (node : Node) :
    (Node.places p node).Pairwise fun o o' => o.1.PreOrder o'.1 := by
  induction node using Node.induction generalizing p with
  | leaf kind position => exact List.pairwise_singleton ..
  | parent kind children position ih =>
    rw [places, placesAll_eq]
    exact pairwise_preOrder prefix_of_mem_places (p, .parent kind children position) ih

/-- All nodes of a tree, from its top. -/
theorem Node.placeListing (ast : Node) :
    PreOrderListing (Node.places [] ast) fun p node => ast.at? p = some node := by
  refine ⟨?_, pairwise_places [] ast⟩
  intro p node
  rw [mem_places]
  constructor
  · rintro ⟨r, rfl, h⟩
    exact h
  · intro h
    exact ⟨p, rfl, h⟩

/-! ### Definitions -/

/-- The tree has a definition at an address. -/
def Node.HasDefinition (ast : Node) (p : Address) (d : Definition) : Prop :=
  ∃ position, ast.at? p = some (.leaf (.definition d) position)

/-- The definitions of a tree with their addresses. -/
def Node.definitionPlaces (ast : Node) : List (Address × Definition) :=
  filterPlaces Node.definition? (Node.places [] ast)

theorem Node.definitionListing (ast : Node) :
    PreOrderListing ast.definitionPlaces ast.HasDefinition := by
  refine (ast.placeListing.filterPlaces Node.definition?).congr ?_
  intro p d
  constructor
  · rintro ⟨node, hnode, hd⟩
    obtain ⟨position, rfl⟩ := definition?_eq_some hd
    exact ⟨position, hnode⟩
  · rintro ⟨position, hnode⟩
    exact ⟨_, hnode, rfl⟩

theorem Node.map_snd_definitionPlaces (ast : Node) :
    ast.definitionPlaces.map Prod.snd = ast.definitions := by
  rw [definitionPlaces, map_snd_filterPlaces, map_snd_places, definitions]

end MarkdownTree.Mdast
