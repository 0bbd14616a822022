import MarkdownTree.Proofs.Tree.InlineOccurrence

/-!
The outline of a document: one tree for all its nodes, each labelled with what it is and with its own
data. Its nodes are the blocks, the items of lists, the inlines, and the document itself, whose children
are the top-level blocks; the children of a list are its items. Main statement: the listing of an outline
has just the nodes of the document (`Document.nodeListing`).
-/

namespace MarkdownTree

open Address

/-- What a node of a document is, its children aside. -/
inductive Label where
  | leafInline (node : LeafInline)
  | span (kind : Span)
  | leafBlock (node : LeafBlock)
  | carrier (kind : Carrier)
  | list (type : ListType)
  | quote
  | item
  | document
  deriving DecidableEq, Repr

def Inline.label : Inline → Label
  | .leaf node => .leafInline node
  | .span kind _ => .span kind

/-- An inline with the inlines in it. -/
abbrev Inline.outline : Inline → Rose Label := Inline.rose Inline.label

mutual

/-- A block with all nodes in it. -/
def Block.outline : Block → Rose Label
  | .leaf node => .node (.leafBlock node) []
  | .carrier kind text => .node (.carrier kind) (Inline.roseAll Inline.label text)
  | .list type items => .node (.list type) (Block.outlineItems items)
  | .quote blocks => .node .quote (Block.outlineAll blocks)

/-- The outlines of blocks in order. -/
def Block.outlineAll : List Block → List (Rose Label)
  | [] => []
  | b :: bs => Block.outline b :: Block.outlineAll bs

/-- The items of a list in order, each a node with its blocks. -/
def Block.outlineItems : List (List Block) → List (Rose Label)
  | [] => []
  | item :: items => .node .item (Block.outlineAll item) :: Block.outlineItems items

end

/-- An item of a list, with its blocks. -/
def Block.outlineItem (item : List Block) : Rose Label := .node .item (Block.outlineAll item)

def Document.outline (doc : Document) : Rose Label := .node .document (Block.outlineAll doc)

/-- All nodes of a document with their addresses, in post-order. -/
def Document.places (doc : Document) : List (Address × Rose Label) := Rose.places [] doc.outline

/-! ### The nodes of a document -/

/-- The document has a node at an address: itself, one of its blocks, an item of one of its lists, or
one of its inlines. -/
inductive Document.HasNode (doc : Document) : Address → Rose Label → Prop
  | document : doc.HasNode [] doc.outline
  | block {p : Address} {b : Block} (h : doc.at? p = some b) : doc.HasNode p b.outline
  | item {p : Address} {type : ListType} {items : List (List Block)} {i : Nat} {item : List Block}
      (h : doc.at? p = some (.list type items)) (hitem : items[i]? = some item) :
      doc.HasNode (p ++ [i]) (Block.outlineItem item)
  | inline {q : Address} {x : Inline} (h : doc.HasInline q x) : doc.HasNode q x.outline

theorem Block.outlineAll_eq_map (bs : List Block) : Block.outlineAll bs = bs.map Block.outline := by
  induction bs with
  | nil => rfl
  | cons b bs ih => rw [Block.outlineAll, ih, List.map_cons]

theorem Block.outlineItems_eq_map (items : List (List Block)) :
    Block.outlineItems items = items.map Block.outlineItem := by
  induction items with
  | nil => rfl
  | cons item items ih => rw [Block.outlineItems, ih, List.map_cons, Block.outlineItem]

theorem Block.bind_outlineAll {α : Type} (bs : List Block) (i : Nat) (f : Rose Label → Option α) :
    (Block.outlineAll bs)[i]?.bind f = bs[i]?.bind fun b => f b.outline := by
  rw [Block.outlineAll_eq_map, List.getElem?_map, Option.bind_map]
  rfl

theorem Block.bind_outlineItems {α : Type} (items : List (List Block)) (i : Nat)
    (f : Rose Label → Option α) :
    (Block.outlineItems items)[i]?.bind f = items[i]?.bind fun item => f (outlineItem item) := by
  rw [Block.outlineItems_eq_map, List.getElem?_map, Option.bind_map]
  rfl

/-! ### The outline has the nodes -/

theorem Block.at?_outline : ∀ (p : Address) {b c : Block}, Block.at? p b = some c →
    Rose.at? p b.outline = some c.outline
  | [], b, c, h => by
    rw [Block.at?_nil] at h
    obtain rfl := Option.some.inj h
    rfl
  | i :: p, .quote blocks, c, h => by
    obtain ⟨b, hb, hc⟩ := Option.bind_eq_some_iff.mp h
    rw [Block.outline, Rose.at?_cons, Block.bind_outlineAll, hb]
    exact Block.at?_outline p hc
  | [i], .list type items, c, h => by simp at h
  | i :: j :: p, .list type items, c, h => by
    obtain ⟨b, hb, hc⟩ := Option.bind_eq_some_iff.mp h
    obtain ⟨item, hitem, hb⟩ := Option.bind_eq_some_iff.mp hb
    rw [Block.outline, Rose.at?_cons, Block.bind_outlineItems, hitem, Option.bind_some,
      Block.outlineItem, Rose.at?_cons, Block.bind_outlineAll, hb]
    exact Block.at?_outline p hc
  | i :: p, .leaf node, c, h => by simp at h
  | i :: p, .carrier kind text, c, h => by simp at h

theorem Document.at?_outline {doc : Document} {p : Address} {b : Block} (h : doc.at? p = some b) :
    Rose.at? p doc.outline = some b.outline := by
  cases p with
  | nil => cases h
  | cons i p =>
    obtain ⟨c, hc, hb⟩ := Option.bind_eq_some_iff.mp h
    rw [Document.outline, Rose.at?_cons, Block.bind_outlineAll, hc]
    exact Block.at?_outline p hb

theorem Document.HasNode.at?_outline {doc : Document} {p : Address} {t : Rose Label}
    (h : doc.HasNode p t) : Rose.at? p doc.outline = some t := by
  cases h with
  | document => rfl
  | block h => exact Document.at?_outline h
  | item h hitem =>
    rw [Rose.at?_append (Document.at?_outline h), Block.outline, Rose.at?_cons,
      Block.bind_outlineItems, hitem]
    rfl
  | inline h =>
    obtain ⟨p, i, r, kind, text, rfl, hb, hx⟩ := h
    rw [Rose.at?_append (Document.at?_outline hb), Block.outline, Rose.at?_cons,
      Inline.bind_at?_roseAll, hx]
    rfl

/-! ### The outline has no other nodes -/

/-- What is in a block of a document is a node of the document. -/
theorem Document.hasNode_below {doc : Document} {t : Rose Label} : ∀ (r : Address) {p : Address}
    {b : Block}, doc.at? p = some b → Rose.at? r b.outline = some t → doc.HasNode (p ++ r) t
  | [], p, b, h, ht => by
    obtain rfl := Option.some.inj ht
    rw [List.append_nil]
    exact .block h
  | i :: r, p, .leaf node, h, ht => by simp [Block.outline] at ht
  | i :: r, p, .carrier kind text, h, ht => by
    rw [Block.outline, Rose.at?_cons, Inline.bind_at?_roseAll, Option.map_eq_some_iff] at ht
    obtain ⟨x, hx, rfl⟩ := ht
    exact .inline ⟨p, i, r, kind, text, rfl, h, hx⟩
  | i :: r, p, .quote blocks, h, ht => by
    rw [Block.outline, Rose.at?_cons, Block.bind_outlineAll] at ht
    obtain ⟨c, hc, ht⟩ := Option.bind_eq_some_iff.mp ht
    have hchild : doc.at? (p ++ [i]) = some c := by
      rw [Document.at?_append h, Block.at?_quote_cons, hc, Option.bind_some, Block.at?_nil]
    simpa using Document.hasNode_below r hchild ht
  | [i], p, .list type items, h, ht => by
    rw [Block.outline, Rose.at?_cons, Block.bind_outlineItems] at ht
    obtain ⟨item, hitem, ht⟩ := Option.bind_eq_some_iff.mp ht
    obtain rfl := Option.some.inj ht
    exact .item h hitem
  | i :: j :: r, p, .list type items, h, ht => by
    rw [Block.outline, Rose.at?_cons, Block.bind_outlineItems] at ht
    obtain ⟨item, hitem, ht⟩ := Option.bind_eq_some_iff.mp ht
    rw [Block.outlineItem, Rose.at?_cons, Block.bind_outlineAll] at ht
    obtain ⟨c, hc, ht⟩ := Option.bind_eq_some_iff.mp ht
    have hchild : doc.at? (p ++ [i, j]) = some c := by
      rw [Document.at?_append h, Block.at?_list_cons_cons, hitem, Option.bind_some, hc,
        Option.bind_some, Block.at?_nil]
    simpa using Document.hasNode_below r hchild ht

theorem Document.hasNode_iff {doc : Document} {p : Address} {t : Rose Label} :
    doc.HasNode p t ↔ Rose.at? p doc.outline = some t := by
  constructor
  · exact fun h => h.at?_outline
  · intro h
    cases p with
    | nil =>
      obtain rfl := Option.some.inj h
      exact .document
    | cons i r =>
      rw [Document.outline, Rose.at?_cons, Block.bind_outlineAll] at h
      obtain ⟨b, hb, ht⟩ := Option.bind_eq_some_iff.mp h
      have htop : doc.at? [i] = some b := by
        rw [Document.at?, hb, Option.bind_some, Block.at?_nil]
      exact Document.hasNode_below r htop ht

theorem Document.nodeListing (doc : Document) : PostOrderListing doc.places doc.HasNode := by
  obtain ⟨complete, once, ordered⟩ := Rose.postOrderListing doc.outline
  refine ⟨?_, once, ordered⟩
  intro p t
  rw [Document.hasNode_iff, ← complete, Document.places]

end MarkdownTree
