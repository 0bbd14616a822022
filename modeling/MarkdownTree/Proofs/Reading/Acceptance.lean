import MarkdownTree.Proofs.Reading.Definitions
import MarkdownTree.Proofs.Reading.Outcome
import MarkdownTree.Proofs.Reading.Visit

/-!
Which trees are read, and why the others are not. A reading fails as the first offending node says
that it comes to. The proof follows the reader node by node: what a node itself fails with is its
offence, and what its children fail with comes after. Main statement: `readNode_outcome`.
-/

namespace MarkdownTree

open Mdast (Node Leaf Parent)
open Address Reading

/-! ### The first offence -/

namespace Reader

variable (r : Reader)

/-- The error of a node that the reader cannot read in a place. -/
def offence (place : Place) (node : Node) : Option ReadError :=
  MarkdownTree.offence r.keepUnsupported r.defines place node

/-- The error of the first offending node from a node at an address on. -/
def firstOffence (place : Place) (p : Address) (node : Node) : Option ReadError :=
  (visits r.keepUnsupported r.defines place p node).findSome?
    (Visit.offence r.keepUnsupported r.defines)

def firstOffenceAll (place : Place) (p : Address) (i : Nat) (nodes : List Node) :
    Option ReadError :=
  (visitsAll r.keepUnsupported r.defines place p i nodes).findSome?
    (Visit.offence r.keepUnsupported r.defines)

theorem offence_visit (v : Visit) :
    v.offence r.keepUnsupported r.defines = r.offence v.place v.node := rfl

theorem firstOffence_leaf (place : Place) (p : Address) (kind : Leaf)
    (position : Option Mdast.Position) :
    r.firstOffence place p (.leaf kind position) = r.offence place (.leaf kind position) := by
  rw [firstOffence, visits, List.findSome?_singleton]
  rfl

/-- A node offends before those below it. -/
theorem firstOffence_parent (place : Place) (p : Address) (kind : Parent) (children : List Node)
    (position : Option Mdast.Position) :
    r.firstOffence place p (.parent kind children position) =
      (r.offence place (.parent kind children position)).or
        (kind.childPlace.bind fun inside => r.firstOffenceAll inside p 0 children) := by
  rw [firstOffence, visits, List.findSome?_cons, visitedPlace, offence_visit]
  cases h : r.offence place (.parent kind children position) with
  | some e => rfl
  | none =>
    -- the children are visited only here, where their parent does not offend
    rw [offence] at h
    rw [h]
    cases kind.childPlace <;> rfl

theorem firstOffenceAll_cons (place : Place) (p : Address) (i : Nat) (node : Node)
    (nodes : List Node) :
    r.firstOffenceAll place p i (node :: nodes) =
      (r.firstOffence place (p ++ [i]) node).or (r.firstOffenceAll place p (i + 1) nodes) := by
  rw [firstOffenceAll, visitsAll, List.findSome?_append]
  rfl

/-! ### Readings of nodes -/

mutual

theorem failure?_inline : ∀ (p : Address) (node : Node),
    (r.inline node).failure? = r.firstOffence .inline p node
  | p, .leaf kind position => by
    rw [firstOffence_leaf]
    cases kind <;>
      simp [inline, offence, MarkdownTree.offence, Node.isPhrasing, Node.isHtml,
        Node.isUnmodelled, Node.reference?]
  | p, .parent kind children position => by
    have ih := failure?_inlines p 0 children
    rw [firstOffence_parent]
    cases kind <;>
      simp [inline, ih, offence, MarkdownTree.offence, Parent.childPlace, Node.isPhrasing,
        Node.isHtml, Node.isUnmodelled, Node.reference?]

theorem failure?_inlines : ∀ (p : Address) (i : Nat) (nodes : List Node),
    (r.inlines nodes).failure? = r.firstOffenceAll .inline p i nodes
  | p, i, [] => by
    rw [inlines]
    rfl
  | p, i, node :: nodes => by
    rw [firstOffenceAll_cons, ← failure?_inline, ← failure?_inlines p (i + 1)]
    simp [inlines]

end

mutual

theorem failure?_block : ∀ (p : Address) (node : Node),
    (r.block node).failure? = r.firstOffence .block p node
  | p, .leaf kind position => by
    rw [firstOffence_leaf]
    cases kind <;>
      simp [block, offence, MarkdownTree.offence, Node.isPhrasing, Node.isPart,
        Node.isUnmodelled]
  | p, .parent kind children position => by
    have ih := failure?_blocks p 0 children
    have ihItems := failure?_items p 0 children
    have ihText := r.failure?_inlines p 0 children
    rw [firstOffence_parent]
    cases kind <;>
      simp [block, ih, ihItems, ihText, offence, MarkdownTree.offence, Parent.childPlace,
        Node.isPhrasing, Node.isPart, Node.isUnmodelled]

theorem failure?_blocks : ∀ (p : Address) (i : Nat) (nodes : List Node),
    (r.blocks nodes).failure? = r.firstOffenceAll .block p i nodes
  | p, i, [] => by
    rw [blocks]
    rfl
  | p, i, node :: nodes => by
    rw [firstOffenceAll_cons, ← failure?_block, ← failure?_blocks p (i + 1)]
    simp [blocks]

theorem failure?_item : ∀ (p : Address) (node : Node),
    (r.item node).failure? = r.firstOffence .item p node
  | p, .leaf kind position => by
    rw [firstOffence_leaf, item]
    rfl
  | p, .parent kind children position => by
    have ih := failure?_blocks p 0 children
    rw [firstOffence_parent]
    cases kind <;>
      simp [item, ih, offence, MarkdownTree.offence, Parent.childPlace, Node.isListItem]

theorem failure?_items : ∀ (p : Address) (i : Nat) (nodes : List Node),
    (r.items nodes).failure? = r.firstOffenceAll .item p i nodes
  | p, i, [] => by
    rw [items]
    rfl
  | p, i, node :: nodes => by
    rw [firstOffenceAll_cons, ← failure?_item, ← failure?_items p (i + 1)]
    simp [items]

end

end Reader

/-! ### Readings of trees -/

/-- A reader of a tree has definitions for the identifiers that the tree defines. -/
theorem defines_collect (keep : Bool) (ast : Node) :
    Reader.defines ⟨(Definitions.collect {} ast).value, keep⟩ = ast.defines :=
  funext fun identifier => Definitions.isSome_find?_collect ast identifier

theorem failure?_readNode (keep : Bool) (ast : Node) :
    (readNode keep ast).failure? =
      (visits keep ast.defines .block [] ast).findSome? (Visit.offence keep ast.defines) := by
  let r : Reader := ⟨(Definitions.collect {} ast).value, keep⟩
  have hread : (readNode keep ast).outcome = (r.blocks [ast]).outcome := rfl
  have hfirst : (r.blocks [ast]).failure? = r.firstOffence .block [] ast := by
    simp [Reader.blocks, r.failure?_block []]
  unfold failure? at hfirst ⊢
  rw [hread, hfirst, Reader.firstOffence, defines_collect]

theorem mem_visits_top {keep : Bool} {defines : String → Bool} {place : Place} {node : Node}
    {v : Visit} : v ∈ visits keep defines place [] node ↔
      Visited keep defines place node v.address v.place v.node := by
  rw [mem_visits]
  constructor
  · rintro ⟨p, rfl, h⟩
    exact h
  · intro h
    exact ⟨v.address, rfl, h⟩

/-- **A tree is read just if no visited node offends, and otherwise the first that does gives the
error.** First in pre-order: before it there is no visited node that offends. -/
theorem readNode_outcome (keep : Bool) (ast : Node) :
    ((∃ doc, (readNode keep ast).outcome = .ok doc) ↔
      ∀ p place node, Visited keep ast.defines .block ast p place node →
        offence keep ast.defines place node = none) ∧
    ∀ e, (readNode keep ast).outcome = .error e ↔
      ∃ p place node, Visited keep ast.defines .block ast p place node ∧
        offence keep ast.defines place node = some e ∧
        ∀ q place' node', Visited keep ast.defines .block ast q place' node' →
          q.PreOrder p → offence keep ast.defines place' node' = none := by
  constructor
  · rw [← failure?_eq_none, failure?_readNode, List.findSome?_eq_none_iff]
    constructor
    · intro h p place node hv
      exact h ⟨p, place, node⟩ (mem_visits_top.mpr hv)
    · intro h v hv
      exact h v.address v.place v.node (mem_visits_top.mp hv)
  · intro e
    rw [← failure?_eq_some, failure?_readNode,
      findSome?_eq_some_of_pairwise (fun _ _ => PreOrder.asymm) (pairwise_visits .block [] ast)]
    constructor
    · rintro ⟨v, hv, he, hnone⟩
      refine ⟨v.address, v.place, v.node, mem_visits_top.mp hv, he, ?_⟩
      intro q place' node' hw hqp
      exact hnone ⟨q, place', node'⟩ (mem_visits_top.mpr hw) hqp
    · rintro ⟨p, place, node, hv, he, hnone⟩
      refine ⟨⟨p, place, node⟩, mem_visits_top.mpr hv, he, ?_⟩
      intro w hw hwp
      exact hnone w.address w.place w.node (mem_visits_top.mp hw) hwp

end MarkdownTree
