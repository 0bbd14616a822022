import MarkdownTree.Tree

/-!
A document as the sequence of its nodes in pre-order: of each what it is and its data, without what is
below it. Texts and soft breaks are left out, as are the items of lists, which their list counts.
-/

namespace MarkdownTree

/-- A node of a document by itself. Of an image its alternative text is part. -/
inductive Record where
  | leafBlock (node : LeafBlock)
  | carrier (kind : Carrier)
  | list (type : ListType) (items : Nat)
  | quote
  | leafInline (node : LeafInline)
  | emphasis
  | strong
  | link (target : Target)
  | image (target : Target) (alt : List Inline)
  deriving DecidableEq

/-! ### Inlines -/

/-- The inline by itself, unless it is a text or a soft break. -/
def Inline.record? : Inline → Option Record
  | .text _ | .softBreak => none
  | .lineBreak => some (.leafInline .lineBreak)
  | .code literal => some (.leafInline (.code literal))
  | .html literal => some (.leafInline (.html literal))
  | .custom literal => some (.leafInline (.custom literal))
  | .span .emphasis _ => some .emphasis
  | .span .strong _ => some .strong
  | .span (.link target) _ => some (.link target)
  | .span (.image target) children => some (.image target children)

mutual

/-- The records of an inline and of all inlines in it, in pre-order. -/
def Inline.records : Inline → List Record
  | .leaf node => (Inline.leaf node).record?.toList
  | .span kind children => (Inline.span kind children).record?.toList ++ Inline.recordsAll children

def Inline.recordsAll : List Inline → List Record
  | [] => []
  | x :: xs => Inline.records x ++ Inline.recordsAll xs

end

theorem Inline.recordsAll_append (xs ys : List Inline) :
    recordsAll (xs ++ ys) = recordsAll xs ++ recordsAll ys := by
  induction xs with
  | nil => rfl
  | cons x xs ih => rw [List.cons_append, recordsAll, recordsAll, ih, List.append_assoc]

theorem Inline.recordsAll_singleton (x : Inline) : recordsAll [x] = x.records := List.append_nil _

theorem Inline.recordsAll_eq_nil {xs : List Inline} (h : ∀ x ∈ xs, x.records = []) :
    recordsAll xs = [] := by
  induction xs with
  | nil => rfl
  | cons x xs ih =>
    obtain ⟨here, rest⟩ := List.forall_mem_cons.mp h
    rw [recordsAll, here, ih rest]
    rfl

/-! ### Blocks -/

mutual

/-- The records of a block and of all nodes in it, in pre-order. -/
def Block.records : Block → List Record
  | .leaf node => [.leafBlock node]
  | .carrier kind text => .carrier kind :: Inline.recordsAll text
  | .list type items => .list type items.length :: Block.recordsItems items
  | .quote blocks => .quote :: Block.recordsAll blocks

def Block.recordsAll : List Block → List Record
  | [] => []
  | b :: bs => Block.records b ++ Block.recordsAll bs

def Block.recordsItems : List (List Block) → List Record
  | [] => []
  | item :: items => Block.recordsAll item ++ Block.recordsItems items

end

theorem Block.recordsAll_append (bs cs : List Block) :
    recordsAll (bs ++ cs) = recordsAll bs ++ recordsAll cs := by
  induction bs with
  | nil => rfl
  | cons b bs ih => rw [List.cons_append, recordsAll, recordsAll, ih, List.append_assoc]

theorem Block.recordsAll_singleton (b : Block) : recordsAll [b] = b.records := List.append_nil _

def Document.records (doc : Document) : List Record := Block.recordsAll doc

end MarkdownTree
