import MarkdownTree.Proofs.Address
import MarkdownTree.Proofs.Mdast.Subnode
import MarkdownTree.Reading.Error

/-!
The nodes that a reading comes to. Each stands in a place: among blocks, among the items of a list, or
among inlines. A node offends where it cannot stand in its place or cannot be read there; what is below
it is then not visited, nor is what is below a node that is read as a whole. Main statement: `visits`
lists the visited nodes, each once, in pre-order (`mem_visits`, `pairwise_visits`).
-/

namespace MarkdownTree

/-! ### Kinds of nodes -/

namespace Mdast

/-- A kind that stands among inlines and nowhere else. -/
def Node.isPhrasing : Node → Bool
  | .parent .emphasis .. | .parent .strong .. | .parent .delete .. | .parent (.link ..) ..
  | .parent (.linkReference _) .. | .parent (.textElement ..) .. => true
  | .leaf .hardBreak _ | .leaf (.text _) _ | .leaf (.inlineCode _) _ | .leaf (.inlineMath _) _
  | .leaf (.image ..) _ | .leaf (.imageReference ..) _ | .leaf (.footnoteReference ..) _
  | .leaf (.textExpression _) _ => true
  | _ => false

/-- A kind that stands in a list or a table and nowhere else. -/
def Node.isPart : Node → Bool
  | .parent (.listItem ..) .. | .parent .tableRow .. | .parent .tableCell .. => true
  | _ => false

def Node.isListItem : Node → Bool
  | .parent (.listItem ..) .. => true
  | _ => false

def Node.isHtml : Node → Bool
  | .leaf (.html _) _ => true
  | _ => false

/-- A kind that documents have no node for. -/
def Node.isUnmodelled : Node → Bool
  | .parent (.footnoteDefinition ..) .. | .parent (.table _) .. | .parent (.flowElement ..) ..
  | .parent .delete .. | .parent (.textElement ..) .. => true
  | .leaf (.math ..) _ | .leaf (.toml _) _ | .leaf (.yaml _) _ | .leaf (.esm _) _
  | .leaf (.flowExpression _) _ | .leaf (.footnoteReference ..) _ | .leaf (.inlineMath _) _
  | .leaf (.textExpression _) _ => true
  | _ => false

/-- What a link or image refers to a definition by, if it does. -/
def Node.reference? : Node → Option Reference
  | .parent (.linkReference reference) .. => some reference
  | .leaf (.imageReference _ reference) _ => some reference
  | _ => none

end Mdast

open Mdast (Node Parent Leaf Reference)
open Address

/-! ### Places -/

/-- Among what a node stands. -/
inductive Place where
  | block
  | item
  | inline
  deriving DecidableEq

/-- The place of the children of a node, if they are read. -/
def Mdast.Parent.childPlace : Parent → Option Place
  | .root | .blockquote | .listItem .. => some .block
  | .list .. => some .item
  | .paragraph | .heading _ | .emphasis | .strong | .link .. | .linkReference _ => some .inline
  | .delete | .footnoteDefinition .. | .table _ | .tableRow | .tableCell
  | .flowElement .. | .textElement .. => none

section Visits

variable (keep : Bool) (defines : String → Bool)

/-- The error for a node that offends in a place, where unmodelled kinds may be kept and the given
identifiers have a definition. -/
def offence (place : Place) (node : Node) : Option ReadError :=
  match place with
  | .item => if node.isListItem then none else some (.notListItem node)
  | .block =>
    if node.isPhrasing || node.isPart then some (.notBlock node)
    else if node.isUnmodelled && !keep then some (.unsupported node)
    else none
  | .inline =>
    if !(node.isPhrasing || node.isHtml) then some (.notInline node)
    else if node.isUnmodelled && !keep then some (.unsupported node)
    else node.reference?.bind fun reference =>
      if defines reference.identifier then none
      else some (.missingDefinition (reference.label.getD reference.identifier))

/-- A node that a reading comes to: where it is and in what place it stands. -/
structure Visit where
  address : Address
  place : Place
  node : Node

def Visit.offence (v : Visit) : Option ReadError := MarkdownTree.offence keep defines v.place v.node

/-- A reading that comes to a node in a place comes to a node below it, at an address from there: the
nodes on the way do not offend, and the children of each are read. -/
inductive Visited : Place → Node → Address → Place → Node → Prop
  | here (place : Place) (node : Node) : Visited place node [] place node
  | step {place inside place' : Place} {kind : Parent} {children : List Node}
      {position : Option Mdast.Position} {i : Nat} {child node' : Node} {p : Address}
      (fine : MarkdownTree.offence keep defines place (.parent kind children position) = none)
      (inner : kind.childPlace = some inside) (hchild : children[i]? = some child)
      (rest : Visited inside child p place' node') :
      Visited place (.parent kind children position) (i :: p) place' node'

/-! ### Listing the visited nodes -/

/-- The place of the children of a node that are visited. -/
def visitedPlace (place : Place) (kind : Parent) (children : List Node)
    (position : Option Mdast.Position) : Option Place :=
  match offence keep defines place (.parent kind children position) with
  | none => kind.childPlace
  | some _ => none

mutual

/-- The visited nodes from a node at an address that stands in a place, in pre-order. -/
def visits : Place → Address → Node → List Visit
  | place, p, .leaf kind position => [⟨p, place, .leaf kind position⟩]
  | place, p, .parent kind children position =>
    ⟨p, place, .parent kind children position⟩ ::
      match visitedPlace keep defines place kind children position with
      | some inside => visitsAll inside p 0 children
      | none => []

/-- The visited nodes from nodes in order, the first of which has a given index under an address. -/
def visitsAll : Place → Address → Nat → List Node → List Visit
  | _, _, _, [] => []
  | place, p, i, node :: nodes => visits place (p ++ [i]) node ++ visitsAll place p (i + 1) nodes

end

variable {keep defines}

theorem visitedPlace_eq_some {place inside : Place} {kind : Parent} {children : List Node}
    {position : Option Mdast.Position} :
    visitedPlace keep defines place kind children position = some inside ↔
      offence keep defines place (.parent kind children position) = none ∧
        kind.childPlace = some inside := by
  unfold visitedPlace
  cases offence keep defines place (.parent kind children position) <;> simp

theorem visitsAll_eq (place : Place) (p : Address) (i : Nat) (nodes : List Node) :
    visitsAll keep defines place p i nodes = listChildren (visits keep defines place) p i nodes := by
  induction nodes generalizing i with
  | nil => rw [visitsAll, listChildren]
  | cons node nodes ih => rw [visitsAll, ih, listChildren]

/-! ### Visited from a node -/

theorem visited_nil_iff {place place' : Place} {node node' : Node} :
    Visited keep defines place node [] place' node' ↔ place' = place ∧ node' = node := by
  constructor
  · rintro ⟨⟩
    exact ⟨rfl, rfl⟩
  · rintro ⟨rfl, rfl⟩
    exact .here ..

theorem not_visited_leaf_cons {place place' : Place} {kind : Leaf} {position : Option Mdast.Position}
    {k : Nat} {r : Address} {node' : Node} :
    ¬ Visited keep defines place (.leaf kind position) (k :: r) place' node' := nofun

theorem visited_parent_cons_iff {place place' : Place} {kind : Parent} {children : List Node}
    {position : Option Mdast.Position} {k : Nat} {r : Address} {node' : Node} :
    Visited keep defines place (.parent kind children position) (k :: r) place' node' ↔
      ∃ inside, visitedPlace keep defines place kind children position = some inside ∧
        ∃ child, children[k]? = some child ∧ Visited keep defines inside child r place' node' := by
  constructor
  · rintro (_ | ⟨fine, inner, hchild, rest⟩)
    exact ⟨_, visitedPlace_eq_some.mpr ⟨fine, inner⟩, _, hchild, rest⟩
  · rintro ⟨inside, hinside, child, hchild, rest⟩
    obtain ⟨fine, inner⟩ := visitedPlace_eq_some.mp hinside
    exact .step fine inner hchild rest

/-! ### The listing is complete and in pre-order -/

theorem mem_visits {v : Visit} (place : Place) (p : Address) (node : Node) :
    v ∈ visits keep defines place p node ↔
      ∃ r, v.address = p ++ r ∧ Visited keep defines place node r v.place v.node := by
  obtain ⟨q, place', node'⟩ := v
  induction node using Node.induction generalizing place p with
  | leaf kind position =>
    rw [visits, exists_below_iff, visited_nil_iff, List.mem_singleton, Visit.mk.injEq]
    simp [not_visited_leaf_cons]
  | parent kind children position ih =>
    rw [visits, exists_below_iff, visited_nil_iff, List.mem_cons, Visit.mk.injEq]
    refine or_congr_right ?_
    simp only [visited_parent_cons_iff]
    cases visitedPlace keep defines place kind children position with
    | none => simp
    | some inside =>
      simp only [visitsAll_eq]
      rw [mem_listChildren fun child hchild p => ih child hchild inside p]
      simp

theorem prefix_of_mem_visits {place : Place} {p : Address} {node : Node} {v : Visit}
    (h : v ∈ visits keep defines place p node) : ∃ r, v.address = p ++ r := by
  obtain ⟨r, hr, -⟩ := (mem_visits place p node).mp h
  exact ⟨r, hr⟩

theorem pairwise_visits (place : Place) (p : Address) (node : Node) :
    (visits keep defines place p node).Pairwise fun v w => v.address.PreOrder w.address := by
  induction node using Node.induction generalizing place p with
  | leaf kind position =>
    rw [visits]
    exact List.pairwise_singleton ..
  | parent kind children position ih =>
    rw [visits]
    cases visitedPlace keep defines place kind children position with
    | none => exact List.pairwise_singleton ..
    | some inside =>
      simp only [visitsAll_eq]
      exact pairwise_preOrder prefix_of_mem_visits ⟨p, place, .parent kind children position⟩
        fun child hchild p => ih child hchild inside p

end Visits

end MarkdownTree
