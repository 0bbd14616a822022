import MarkdownTree.Proofs.Address
import MarkdownTree.Tree

/-!
The places of the blocks of a document. A block is found by its address: its index among the top-level
blocks, and then for each container on the way the index of the item, if the container is a list, and
the index inside the item or quote. Main statement: `Document.occurrences` lists every address of a
block once, in post-order, with the block that is there. What is proved of all blocks wherever they stand
is proved by induction over the blocks inside a block (`Block.induction`).
-/

namespace MarkdownTree

open Address

/-! ### Induction -/

/-- What holds of the blocks without blocks in them, and of a list or quote if it holds of the blocks in
it, holds of all blocks. -/
@[elab_as_elim]
theorem Block.induction {Q : Block → Prop} (leaf : ∀ node, Q (.leaf node))
    (carrier : ∀ kind text, Q (.carrier kind text))
    (list : ∀ type items, (∀ item ∈ items, ∀ b ∈ item, Q b) → Q (.list type items))
    (quote : ∀ blocks, (∀ b ∈ blocks, Q b) → Q (.quote blocks)) : ∀ b, Q b
  | .leaf node => leaf node
  | .carrier kind text => carrier kind text
  | .list type items =>
    list type items fun item _ b _ => Block.induction leaf carrier list quote b
  | .quote blocks => quote blocks fun b _ => Block.induction leaf carrier list quote b
decreasing_by
  · have inList := List.sizeOf_lt_of_mem ‹item ∈ items›
    have inItem := List.sizeOf_lt_of_mem ‹b ∈ item›
    rw [Block.list.sizeOf_spec]
    omega
  · have inQuote := List.sizeOf_lt_of_mem ‹b ∈ blocks›
    rw [Block.quote.sizeOf_spec]
    omega

/-! ### Finding a block -/

/-- The block at an address inside a block. -/
def Block.at? : Address → Block → Option Block
  | [], b => some b
  | i :: p, .quote blocks => blocks[i]?.bind (Block.at? p)
  | i :: j :: p, .list _ items => (items[i]?.bind (·[j]?)).bind (Block.at? p)
  | _, _ => none

@[simp] theorem Block.at?_nil (b : Block) : Block.at? [] b = some b := by
  rw [Block.at?]

@[simp] theorem Block.at?_leaf_cons (i : Nat) (p : Address) (node : LeafBlock) :
    Block.at? (i :: p) (.leaf node) = none := by
  cases p <;> rfl

@[simp] theorem Block.at?_carrier_cons (i : Nat) (p : Address) (kind : Carrier)
    (text : List Inline) : Block.at? (i :: p) (.carrier kind text) = none := by
  cases p <;> rfl

@[simp] theorem Block.at?_quote_cons (i : Nat) (p : Address) (blocks : List Block) :
    Block.at? (i :: p) (.quote blocks) = blocks[i]?.bind (Block.at? p) := by
  rw [Block.at?]

@[simp] theorem Block.at?_list_singleton (i : Nat) (type : ListType)
    (items : List (List Block)) : Block.at? [i] (.list type items) = none := rfl

@[simp] theorem Block.at?_list_cons_cons (i j : Nat) (p : Address) (type : ListType)
    (items : List (List Block)) :
    Block.at? (i :: j :: p) (.list type items) =
      (items[i]?.bind (·[j]?)).bind (Block.at? p) := by
  rw [Block.at?]

/-- The block at an address of a document. -/
def Document.at? (doc : Document) : Address → Option Block
  | [] => none
  | i :: p => doc[i]?.bind (Block.at? p)

/-- An item of a list is found in as a document is. -/
theorem Block.at?_list_cons (i : Nat) (p : Address) (type : ListType) (items : List (List Block)) :
    Block.at? (i :: p) (.list type items) = items[i]?.bind fun item => Document.at? item p := by
  cases p with
  | nil => simp [Document.at?]
  | cons j p =>
    rw [Block.at?_list_cons_cons, Option.bind_assoc]
    rfl

/-! ### Listing all blocks -/

mutual

/-- The blocks of a block at an address, itself the last, each with its own address. -/
def Block.occurrences : Address → Block → List (Address × Block)
  | p, .leaf node => [(p, .leaf node)]
  | p, .carrier kind text => [(p, .carrier kind text)]
  | p, .list type items => Block.occurrencesItems p 0 items ++ [(p, .list type items)]
  | p, .quote blocks => Block.occurrencesAll p 0 blocks ++ [(p, .quote blocks)]

/-- The blocks of blocks in order, the first of which has a given index under an address. -/
def Block.occurrencesAll : Address → Nat → List Block → List (Address × Block)
  | _, _, [] => []
  | p, i, b :: bs => Block.occurrences (p ++ [i]) b ++ Block.occurrencesAll p (i + 1) bs

/-- The blocks of items in order, the first of which has a given index under an address. -/
def Block.occurrencesItems : Address → Nat → List (List Block) → List (Address × Block)
  | _, _, [] => []
  | p, i, item :: items =>
    Block.occurrencesAll (p ++ [i]) 0 item ++ Block.occurrencesItems p (i + 1) items

end

/-- All blocks of a document with their addresses, in post-order. -/
def Document.occurrences (doc : Document) : List (Address × Block) := Block.occurrencesAll [] 0 doc

theorem Block.occurrencesAll_eq (p : Address) (i : Nat) (bs : List Block) :
    Block.occurrencesAll p i bs = listChildren Block.occurrences p i bs := by
  induction bs generalizing i with
  | nil => rfl
  | cons b bs ih => rw [Block.occurrencesAll, ih, listChildren]

/-- An item lists its blocks as a document does. -/
theorem Block.occurrencesItems_eq (p : Address) (i : Nat) (items : List (List Block)) :
    Block.occurrencesItems p i items =
      listChildren (fun p item => listChildren Block.occurrences p 0 item) p i items := by
  induction items generalizing i with
  | nil => rfl
  | cons item items ih => rw [Block.occurrencesItems, Block.occurrencesAll_eq, ih, listChildren]

/-! ### The listing is complete -/

section Complete

variable {q : Address} {c : Block}

/-- Where each block lists the blocks in it, the blocks list those of the document that they are. -/
theorem Block.mem_listChildren_occurrences {bs : List Block}
    (each : ∀ b ∈ bs, ∀ p, (q, c) ∈ Block.occurrences p b ↔ ∃ r, q = p ++ r ∧ Block.at? r b = some c)
    (p : Address) :
    (q, c) ∈ listChildren Block.occurrences p 0 bs ↔
      ∃ r, q = p ++ r ∧ Document.at? bs r = some c := by
  rw [mem_listChildren each, exists_below_iff]
  simp [Document.at?, Option.bind_eq_some_iff]

theorem Block.mem_occurrences (p : Address) (b : Block) :
    (q, c) ∈ Block.occurrences p b ↔ ∃ r, q = p ++ r ∧ Block.at? r b = some c := by
  induction b using Block.induction generalizing p with
  | leaf | carrier =>
    rw [Block.occurrences, List.mem_singleton, exists_at?_iff (Block.at?_nil _)]
    simp
  | list type items ih =>
    rw [Block.occurrences, Block.occurrencesItems_eq, List.mem_append,
      mem_listChildren fun item hitem p => Block.mem_listChildren_occurrences (ih item hitem) p,
      List.mem_singleton, or_comm, exists_at?_iff (Block.at?_nil _)]
    simp [Block.at?_list_cons, Option.bind_eq_some_iff]
  | quote blocks ih =>
    rw [Block.occurrences, Block.occurrencesAll_eq, List.mem_append, mem_listChildren ih,
      List.mem_singleton, or_comm, exists_at?_iff (Block.at?_nil _)]
    simp [Option.bind_eq_some_iff]

end Complete

theorem Document.mem_occurrences {doc : Document} {p : Address} {b : Block} :
    (p, b) ∈ doc.occurrences ↔ doc.at? p = some b := by
  rw [Document.occurrences, Block.occurrencesAll_eq,
    Block.mem_listChildren_occurrences fun c _ p => Block.mem_occurrences p c]
  simp

/-! ### The listing is in post-order -/

theorem Block.prefix_of_mem_occurrences {p : Address} {b : Block} {o : Address × Block}
    (h : o ∈ Block.occurrences p b) : ∃ r, o.1 = p ++ r := by
  obtain ⟨r, hr, -⟩ := (Block.mem_occurrences p b).mp h
  exact ⟨r, hr⟩

theorem Block.prefix_of_mem_item {p : Address} {item : List Block} {o : Address × Block}
    (h : o ∈ listChildren Block.occurrences p 0 item) : ∃ r, o.1 = p ++ r := by
  obtain ⟨k, r, -, hr⟩ := below_of_mem_listChildren Block.prefix_of_mem_occurrences h
  exact ⟨k :: r, hr⟩

theorem Block.pairwise_occurrences (p : Address) (b : Block) :
    (Block.occurrences p b).Pairwise fun o o' => o.1.PostOrder o'.1 := by
  induction b using Block.induction generalizing p with
  | leaf | carrier => exact List.pairwise_singleton ..
  | list type items ih =>
    rw [Block.occurrences, Block.occurrencesItems_eq]
    refine pairwise_postOrder Block.prefix_of_mem_item (p, .list type items) ?_
    intro item hitem p
    exact pairwise_listChildren Block.prefix_of_mem_occurrences .inr (ih item hitem) p 0
  | quote blocks ih =>
    rw [Block.occurrences, Block.occurrencesAll_eq]
    exact pairwise_postOrder Block.prefix_of_mem_occurrences (p, .quote blocks) ih

theorem Document.pairwise_occurrences (doc : Document) :
    (doc.occurrences.map Prod.fst).Pairwise PostOrder := by
  rw [List.pairwise_map, Document.occurrences, Block.occurrencesAll_eq]
  exact pairwise_listChildren Block.prefix_of_mem_occurrences .inr
    (fun b _ p => Block.pairwise_occurrences p b) [] 0

theorem Document.nodup_occurrences (doc : Document) : (doc.occurrences.map Prod.fst).Nodup := by
  refine List.nodup_iff_pairwise_ne.mpr (doc.pairwise_occurrences.imp ?_)
  rintro p q h rfl
  exact PostOrder.irrefl h

end MarkdownTree
