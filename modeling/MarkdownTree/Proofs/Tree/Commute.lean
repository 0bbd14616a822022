import MarkdownTree.Proofs.Tree.Every
import MarkdownTree.Proofs.Tree.Gathering
import MarkdownTree.Proofs.Tree.Pure
import Mathlib.Data.List.Basic

/-!
Replacing blocks and replacing inlines in either order. Where a function on blocks does the same to a
block whose inlines have been replaced as to the block itself, the two replacings of a document commute,
although each changes what the other one sees. Main statement: `Document.replacings_commute`.
-/

namespace MarkdownTree

variable {f : Inline → List Inline} {g : Block → List Block}

/-! ### Functions that do not mind the inlines -/

/-- Whether the inlines of a block are replaced before `g` or in what `g` gives comes to the same. -/
def Block.Indifferent (f : Inline → List Inline) (g : Block → List Block) : Prop :=
  ∀ b b', Document.replacedInlines f [b] = [b'] → g b' = Document.replacedInlines f (g b)

theorem Document.replacedInlines_singleton (b : Block) :
    Document.replacedInlines f [b] = [b.withTexts (List.flatMap (Inline.replaced f))] := by
  rw [Document.replacedInlines_eq, List.map_singleton]

theorem Block.indifferent_iff : Block.Indifferent f g ↔
    ∀ b, g (b.withTexts (List.flatMap (Inline.replaced f))) =
      (g b).map (Block.withTexts (List.flatMap (Inline.replaced f))) := by
  constructor
  · intro h b
    rw [h b _ (Document.replacedInlines_singleton b), Document.replacedInlines_eq]
  · rintro h b b' hb
    rw [Document.replacedInlines_singleton, List.singleton_inj] at hb
    rw [← hb, h, Document.replacedInlines_eq]

/-! ### The replacings commute -/

theorem Block.replaced_withTexts {t : List Inline → List Inline}
    (h : ∀ b, g (b.withTexts t) = (g b).map (Block.withTexts t)) (b : Block) :
    (b.withTexts t).replaced g = (b.replaced g).map (Block.withTexts t) := by
  have joined {bs : List Block}
      (ih : ∀ b ∈ bs, (b.withTexts t).replaced g = (b.replaced g).map (Block.withTexts t)) :
      (bs.map (Block.withTexts t)).flatMap (Block.replaced g) =
        (bs.flatMap (Block.replaced g)).map (Block.withTexts t) := by
    rw [List.flatMap_map, List.map_flatMap]
    exact List.flatMap_congr ih
  induction b using Block.induction with
  | leaf node => exact h (.leaf node)
  | carrier kind text => exact h (.carrier kind text)
  | list type items ih =>
    -- The hypothesis is about the list that the first replacing has built, not about this one.
    rw [Block.withTexts_list, Block.replaced_list, Block.replaced_list, ← h, Block.withTexts_list,
      List.map_map, List.map_map]
    congr 2
    exact List.map_congr_left fun item hitem => joined (ih item hitem)
  | quote blocks ih =>
    rw [Block.withTexts_quote, Block.replaced_quote, Block.replaced_quote, ← h,
      Block.withTexts_quote, joined ih]

theorem Document.replacedInlines_replacedBlocks (h : Block.Indifferent f g) (doc : Document) :
    (doc.replacedBlocks g).replacedInlines f = (doc.replacedInlines f).replacedBlocks g := by
  rw [Document.replacedInlines_eq, Document.replacedInlines_eq, Document.replacedBlocks_eq,
    Document.replacedBlocks_eq, List.map_flatMap, List.flatMap_map]
  refine List.flatMap_congr fun b _ => ?_
  exact (Block.replaced_withTexts (Block.indifferent_iff.mp h) b).symm

/-! ### Such functions -/

def Carrier.releveled (level : UInt8 → UInt8) : Carrier → Carrier
  | .paragraph => .paragraph
  | .heading l => .heading (level l)

namespace Block

/-- As many copies of a block as its kind and its own data say: none deletes it, two double it. -/
def copied (copies : Label → Nat) (b : Block) : List Block := List.replicate (copies b.label) b

/-- Changes the level of a heading, and keeps another block. -/
def releveled (level : UInt8 → UInt8) : Block → List Block
  | .carrier kind text => [.carrier (kind.releveled level) text]
  | .leaf node => [.leaf node]
  | .list type items => [.list type items]
  | .quote blocks => [.quote blocks]

/-- The blocks of a list, item after item, or of a quote; another block is all there is. -/
def contents : Block → List Block
  | .list _ items => items.flatten
  | .quote blocks => blocks
  | b => [b]

/-- Puts the contents of a block in its place, where its kind and its own data say so. -/
def unwrapped (p : Label → Bool) (b : Block) : List Block := if p b.label then b.contents else [b]

theorem label_withTexts (t : List Inline → List Inline) (b : Block) :
    (b.withTexts t).label = b.label := by
  cases b with
  | leaf | carrier => rfl
  | list type items => rw [withTexts_list, label, label]
  | quote blocks => rw [withTexts_quote, label, label]

theorem contents_withTexts (t : List Inline → List Inline) (b : Block) :
    (b.withTexts t).contents = b.contents.map (withTexts t) := by
  cases b with
  | leaf | carrier => rfl
  | list type items => rw [withTexts_list, contents, contents, List.map_flatten]
  | quote blocks => rw [withTexts_quote, contents, contents]

theorem indifferent_copied (f : Inline → List Inline) (copies : Label → Nat) :
    Indifferent f (copied copies) := by
  rw [indifferent_iff]
  intro b
  rw [copied, copied, label_withTexts, List.map_replicate]

theorem indifferent_releveled (f : Inline → List Inline) (level : UInt8 → UInt8) :
    Indifferent f (releveled level) := by
  rw [indifferent_iff]
  intro b
  cases b with
  | leaf | carrier => rfl
  | list type items => rw [withTexts_list, releveled, releveled, List.map_singleton, withTexts_list]
  | quote blocks => rw [withTexts_quote, releveled, releveled, List.map_singleton, withTexts_quote]

theorem indifferent_unwrapped (f : Inline → List Inline) (p : Label → Bool) :
    Indifferent f (unwrapped p) := by
  rw [indifferent_iff]
  intro b
  rw [unwrapped, unwrapped, label_withTexts]
  split
  · exact contents_withTexts _ b
  · rfl

end Block

/-- **Replacing blocks and replacing inlines commute.** The first turns on what is done to a single block,
which the second always makes one block: where a function on blocks does the same before and after that,
so do the two replacings of a whole document. Functions that delete or repeat blocks by kind, that change
the levels of headings, or that put the contents of lists or quotes in their places are of that sort,
whatever is done to the inlines. -/
theorem Document.replacings_commute (f : Inline → List Inline) :
    (∀ b, ∃ b', Document.replacedInlines f [b] = [b']) ∧
    (∀ g, Block.Indifferent f g → ∀ doc : Document,
      (doc.replacedBlocks g).replacedInlines f = (doc.replacedInlines f).replacedBlocks g) ∧
    (∀ copies, Block.Indifferent f (Block.copied copies)) ∧
    (∀ level, Block.Indifferent f (Block.releveled level)) ∧
    (∀ p, Block.Indifferent f (Block.unwrapped p)) :=
  ⟨fun b => ⟨_, Document.replacedInlines_singleton b⟩,
    fun _ h doc => Document.replacedInlines_replacedBlocks h doc, Block.indifferent_copied f,
    Block.indifferent_releveled f, Block.indifferent_unwrapped f⟩

/-- Doubles every text. -/
def doubled : Inline → List Inline
  | .text literal => [.text literal, .text literal]
  | x => [x]

/-- The quotes are taken apart and the texts doubled, in either order. -/
theorem Document.replacings_commute_nested :
    let quotes : Label → Bool := (· = .quote)
    let doc : Document := [.quote [.list .ordered [[.quote [.paragraph [.text "a"]]], []]]]
    Block.Indifferent doubled (Block.unwrapped quotes) ∧
    (doc.replacedBlocks (Block.unwrapped quotes)).replacedInlines doubled =
      (doc.replacedInlines doubled).replacedBlocks (Block.unwrapped quotes) ∧
    (doc.replacedInlines doubled).replacedBlocks (Block.unwrapped quotes) =
      [.list .ordered [[.paragraph [.text "a", .text "a"]], []]] := by
  intro quotes doc
  have indifferent := Block.indifferent_unwrapped doubled quotes
  obtain ⟨-, commute, -⟩ := Document.replacings_commute doubled
  exact ⟨indifferent, commute _ indifferent doc, rfl⟩

end MarkdownTree
