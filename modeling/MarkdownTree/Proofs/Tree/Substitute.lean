import MarkdownTree.Proofs.Tree.Passes

/-!
Substituting leaves. Where a replacing puts leaves in the places of leaves and keeps the containers, it
acts on the row of leaves alone: each leaf of the row is replaced, the containers are what they were, and
two such replacings are one. Main statement: `Document.substituted_leaves`.
-/

namespace MarkdownTree

/-! ### Leaves and containers -/

/-- The inline itself, if it is a leaf. -/
def Inline.ownLeaf : Inline → List LeafInline
  | .leaf node => [node]
  | .span .. => []

/-- The kind of a span, with its title and url. -/
def Inline.ownSpan : Inline → List Span
  | .leaf _ => []
  | .span kind _ => [kind]

/-- A block without blocks in it. -/
inductive FlatBlock where
  | leaf (node : LeafBlock)
  | carrier (kind : Carrier) (text : List Inline)

def FlatBlock.toBlock : FlatBlock → Block
  | .leaf node => .leaf node
  | .carrier kind text => .carrier kind text

/-- What a block with blocks in it is, the blocks aside. -/
inductive Container where
  | list (type : ListType) (items : Nat)
  | quote

/-- The block itself, if there are no blocks in it. -/
def Block.ownFlat : Block → List FlatBlock
  | .leaf node => [.leaf node]
  | .carrier kind text => [.carrier kind text]
  | .list .. | .quote _ => []

/-- The type of a list, with the number of its items, or a quote. -/
def Block.ownContainer : Block → List Container
  | .leaf _ | .carrier .. => []
  | .list type items => [.list type items.length]
  | .quote _ => [.quote]

namespace Document

/-- The leaves of the texts of a document. -/
def leafInlines (doc : Document) : List LeafInline := doc.collectedInlines Inline.ownLeaf

/-- The spans of the texts of a document. -/
def spans (doc : Document) : List Span := doc.collectedInlines Inline.ownSpan

/-- The blocks of a document that have no blocks in them. -/
def flatBlocks (doc : Document) : List FlatBlock := doc.collectedBlocks Block.ownFlat

/-- The lists and quotes of a document. -/
def containers (doc : Document) : List Container := doc.collectedBlocks Block.ownContainer

end Document

/-! ### Substituting inlines -/

/-- Puts the leaves that `s` gives for a leaf in its place, and keeps a span. -/
def Inline.substituted (s : LeafInline → List LeafInline) : Inline → List Inline
  | .leaf node => (s node).map .leaf
  | .span kind children => [.span kind children]

section Inlines

variable (s t : LeafInline → List LeafInline) (doc : Document)

theorem Document.leafInlines_substituted :
    (doc.replacedInlines (Inline.substituted s)).leafInlines = doc.leafInlines.flatMap s := by
  have node (x : Inline) : (x.replaced (Inline.substituted s)).flatMap
      (Inline.collected Inline.ownLeaf) = x.collected fun y => y.ownLeaf.flatMap s := by
    refine Inline.collected_replaced (fun node => ?_) (fun kind xs ys => ?_) x
    · rw [Inline.substituted, List.flatMap_map, Inline.ownLeaf, List.flatMap_singleton]
      exact List.flatMap_singleton' (s node)
    · rw [Inline.substituted, List.flatMap_singleton, Inline.collected_span]
      rfl
  rw [Document.leafInlines, Document.collectedInlines_replacedInlines node,
    Document.collectedInlines_eq_flatMap, Document.leafInlines,
    Document.collectedInlines_eq_flatMap, List.flatMap_assoc]

theorem Document.spans_substituted :
    (doc.replacedInlines (Inline.substituted s)).spans = doc.spans := by
  refine Document.collectedInlines_replacedInlines (fun x => ?_) doc
  refine Inline.collected_replaced (fun node => ?_) (fun kind xs ys => ?_) x
  · rw [Inline.substituted, List.flatMap_map]
    exact List.flatMap_eq_nil_iff.mpr fun node _ => rfl
  · rw [Inline.substituted, List.flatMap_singleton, Inline.collected_span]
    rfl

theorem Document.substitutedInlines_substitutedInlines :
    (doc.replacedInlines (Inline.substituted s)).replacedInlines (Inline.substituted t) =
      doc.replacedInlines (Inline.substituted fun node => (s node).flatMap t) := by
  refine Document.replacedInlines_replacedInlines (fun x => ?_) doc
  refine Inline.replaced_replaced (fun node => ?_) (fun kind xs => ?_) x
  · rw [Inline.substituted, Inline.substituted, List.flatMap_map, List.map_flatMap]
    rfl
  · rw [Inline.substituted, List.flatMap_singleton, Inline.replaced_span]
    rfl

end Inlines

/-! ### Substituting blocks -/

/-- Puts the blocks that `s` gives for a block without blocks in its place, and keeps a list or quote. -/
def Block.substituted (s : FlatBlock → List FlatBlock) : Block → List Block
  | .leaf node => (s (.leaf node)).map FlatBlock.toBlock
  | .carrier kind text => (s (.carrier kind text)).map FlatBlock.toBlock
  | .list type items => [.list type items]
  | .quote blocks => [.quote blocks]

section Blocks

variable {α : Type} (s t : FlatBlock → List FlatBlock) (doc : Document)

theorem FlatBlock.collected_toBlock (c : Block → List α) (node : FlatBlock) :
    node.toBlock.collected c = c node.toBlock := by
  cases node <;> rfl

theorem FlatBlock.replaced_toBlock (g : Block → List Block) (node : FlatBlock) :
    node.toBlock.replaced g = g node.toBlock := by
  cases node <;> rfl

theorem FlatBlock.ownFlat_toBlock (node : FlatBlock) : node.toBlock.ownFlat = [node] := by
  cases node <;> rfl

theorem FlatBlock.ownContainer_toBlock (node : FlatBlock) : node.toBlock.ownContainer = [] := by
  cases node <;> rfl

theorem FlatBlock.substituted_toBlock (node : FlatBlock) :
    node.toBlock.substituted s = (s node).map FlatBlock.toBlock := by
  cases node <;> rfl

theorem Document.flatBlocks_substituted :
    (doc.replacedBlocks (Block.substituted s)).flatBlocks = doc.flatBlocks.flatMap s := by
  have flat (node : FlatBlock) :
      ((s node).map FlatBlock.toBlock).flatMap (Block.collected Block.ownFlat) =
        [node].flatMap s := by
    rw [List.flatMap_map, List.flatMap_singleton]
    simp only [FlatBlock.collected_toBlock, FlatBlock.ownFlat_toBlock, List.flatMap_singleton']
  have node (b : Block) : (b.replaced (Block.substituted s)).flatMap
      (Block.collected Block.ownFlat) = b.collected fun c => c.ownFlat.flatMap s := by
    refine Block.collected_replaced (fun node => flat (.leaf node))
      (fun kind text => flat (.carrier kind text)) (fun type items items' _ => ?_)
      (fun bs bs' => ?_) b
    · rw [Block.substituted, List.flatMap_singleton, Block.collected_list]
      rfl
    · rw [Block.substituted, List.flatMap_singleton, Block.collected_quote]
      rfl
  rw [Document.flatBlocks, Document.collectedBlocks_replacedBlocks node,
    Document.collectedBlocks_eq_flatMap, Document.flatBlocks, Document.collectedBlocks_eq_flatMap,
    List.flatMap_assoc]

theorem Document.containers_substituted :
    (doc.replacedBlocks (Block.substituted s)).containers = doc.containers := by
  have flat (node : FlatBlock) :
      ((s node).map FlatBlock.toBlock).flatMap (Block.collected Block.ownContainer) = [] := by
    rw [List.flatMap_map]
    refine List.flatMap_eq_nil_iff.mpr fun node _ => ?_
    rw [FlatBlock.collected_toBlock, FlatBlock.ownContainer_toBlock]
  refine Document.collectedBlocks_replacedBlocks (fun b => ?_) doc
  refine Block.collected_replaced (fun node => flat (.leaf node))
    (fun kind text => flat (.carrier kind text)) (fun type items items' same => ?_)
    (fun bs bs' => ?_) b
  · rw [Block.substituted, List.flatMap_singleton, Block.collected_list, Block.ownContainer,
      Block.ownContainer, same]
  · rw [Block.substituted, List.flatMap_singleton, Block.collected_quote]
    rfl

theorem Document.substitutedBlocks_substitutedBlocks :
    (doc.replacedBlocks (Block.substituted s)).replacedBlocks (Block.substituted t) =
      doc.replacedBlocks (Block.substituted fun node => (s node).flatMap t) := by
  have flat (node : FlatBlock) :
      ((s node).map FlatBlock.toBlock).flatMap (Block.replaced (Block.substituted t)) =
        ((s node).flatMap t).map FlatBlock.toBlock := by
    rw [List.flatMap_map, List.map_flatMap]
    refine List.flatMap_congr fun node _ => ?_
    rw [FlatBlock.replaced_toBlock, FlatBlock.substituted_toBlock]
  refine Document.replacedBlocks_replacedBlocks (fun b => ?_) doc
  refine Block.replaced_replaced (fun node => flat (.leaf node))
    (fun kind text => flat (.carrier kind text)) (fun type items => ?_) (fun bs => ?_) b
  · rw [Block.substituted, List.flatMap_singleton, Block.replaced_list]
    rfl
  · rw [Block.substituted, List.flatMap_singleton, Block.replaced_quote]
    rfl

end Blocks

/-! ### Main statement -/

/-- **A substitution of leaves acts on the row of leaves alone.** Where leaves are put in the places of
leaves, and containers are kept, the leaves of the result in the order of the walk are those of the
document, each replaced; the containers are those of the document, with their own data; and two
substitutions, one after the other, are one substitution. So it is with the inlines, in all texts, and with
the blocks. -/
theorem Document.substituted_leaves (doc : Document) :
    (∀ s : LeafInline → List LeafInline,
      (doc.replacedInlines (Inline.substituted s)).leafInlines = doc.leafInlines.flatMap s ∧
      (doc.replacedInlines (Inline.substituted s)).spans = doc.spans ∧
      ∀ t, (doc.replacedInlines (Inline.substituted s)).replacedInlines (Inline.substituted t) =
        doc.replacedInlines (Inline.substituted fun node => (s node).flatMap t)) ∧
    (∀ s : FlatBlock → List FlatBlock,
      (doc.replacedBlocks (Block.substituted s)).flatBlocks = doc.flatBlocks.flatMap s ∧
      (doc.replacedBlocks (Block.substituted s)).containers = doc.containers ∧
      ∀ t, (doc.replacedBlocks (Block.substituted s)).replacedBlocks (Block.substituted t) =
        doc.replacedBlocks (Block.substituted fun node => (s node).flatMap t)) :=
  ⟨fun s => ⟨doc.leafInlines_substituted s, doc.spans_substituted s,
      fun t => doc.substitutedInlines_substitutedInlines s t⟩,
    fun s => ⟨doc.flatBlocks_substituted s, doc.containers_substituted s,
      fun t => doc.substitutedBlocks_substitutedBlocks s t⟩⟩

end MarkdownTree
