import MarkdownTree.Proofs.Tree.Every
import MarkdownTree.Proofs.Tree.Pure
import Mathlib.Data.List.Basic

/-!
Two passes in one. What is collected from a tree after a replacing, and what a second replacing makes of
it, comes out of one pass over the tree as it was, provided that this is so at every single node: at a leaf
as it stands, and at a container whatever the first pass has put into it.
-/

namespace MarkdownTree

variable {α : Type}

/-- Two functions on lists, one after the other, are one if they are at each member. -/
theorem flatMap_flatMap_congr {A B C : Type} {f : A → List B} {g : B → List C} {h : A → List C}
    {as : List A} (each : ∀ a ∈ as, (f a).flatMap g = h a) :
    (as.flatMap f).flatMap g = as.flatMap h := by
  rw [List.flatMap_assoc, List.flatMap_congr each]

/-! ### Inlines -/

namespace Inline

variable {f g h : Inline → List Inline} {c d : Inline → List α}

theorem collected_replaced
    (leaf : ∀ node, (f (.leaf node)).flatMap (collected c) = d (.leaf node))
    (span : ∀ kind xs ys, (f (.span kind xs)).flatMap (collected c) =
      xs.flatMap (collected c) ++ d (.span kind ys))
    (x : Inline) : (x.replaced f).flatMap (collected c) = x.collected d := by
  induction x using Inline.induction with
  | leaf node => exact leaf node
  | span kind children ih =>
    -- What comes of the span itself must not depend on its children: they are not the ones it had.
    rw [replaced_span, span kind _ children, flatMap_flatMap_congr ih, collected_span]

theorem replaced_replaced
    (leaf : ∀ node, (f (.leaf node)).flatMap (replaced g) = h (.leaf node))
    (span : ∀ kind xs, (f (.span kind xs)).flatMap (replaced g) =
      h (.span kind (xs.flatMap (replaced g))))
    (x : Inline) : (x.replaced f).flatMap (replaced g) = x.replaced h := by
  induction x using Inline.induction with
  | leaf node => exact leaf node
  | span kind children ih =>
    rw [replaced_span, span, flatMap_flatMap_congr ih, replaced_span]

end Inline

/-! ### Blocks -/

namespace Block

variable {f g h : Block → List Block} {c d : Block → List α}

/-- The blocks that a list held, and with them what is collected from it, may change; the number of its
items does not. -/
theorem collected_replaced
    (leaf : ∀ node, (f (.leaf node)).flatMap (collected c) = d (.leaf node))
    (carrier : ∀ kind text, (f (.carrier kind text)).flatMap (collected c) = d (.carrier kind text))
    (list : ∀ type items items', items.length = items'.length →
      (f (.list type items)).flatMap (collected c) =
        (items.flatMap fun item => item.flatMap (collected c)) ++ d (.list type items'))
    (quote : ∀ bs bs', (f (.quote bs)).flatMap (collected c) =
      bs.flatMap (collected c) ++ d (.quote bs'))
    (b : Block) : (b.replaced f).flatMap (collected c) = b.collected d := by
  induction b using Block.induction with
  | leaf node => exact leaf node
  | carrier kind text => exact carrier kind text
  | list type items ih =>
    rw [replaced_list, list type _ items (List.length_map _), List.flatMap_map, collected_list]
    congr 1
    exact List.flatMap_congr fun item hitem => flatMap_flatMap_congr (ih item hitem)
  | quote blocks ih =>
    rw [replaced_quote, quote _ blocks, flatMap_flatMap_congr ih, collected_quote]

theorem replaced_replaced
    (leaf : ∀ node, (f (.leaf node)).flatMap (replaced g) = h (.leaf node))
    (carrier : ∀ kind text, (f (.carrier kind text)).flatMap (replaced g) = h (.carrier kind text))
    (list : ∀ type items, (f (.list type items)).flatMap (replaced g) =
      h (.list type (items.map fun item => item.flatMap (replaced g))))
    (quote : ∀ bs, (f (.quote bs)).flatMap (replaced g) = h (.quote (bs.flatMap (replaced g))))
    (b : Block) : (b.replaced f).flatMap (replaced g) = b.replaced h := by
  induction b using Block.induction with
  | leaf node => exact leaf node
  | carrier kind text => exact carrier kind text
  | list type items ih =>
    rw [replaced_list, list, List.map_map, replaced_list]
    congr 2
    exact List.map_congr_left fun item hitem => flatMap_flatMap_congr (ih item hitem)
  | quote blocks ih =>
    rw [replaced_quote, quote, flatMap_flatMap_congr ih, replaced_quote]

/-! ### Texts -/

theorem collectedTexts_withTexts (t : List Inline → List Inline) (u : List Inline → List α)
    (b : Block) : (b.withTexts t).collectedTexts u = b.collectedTexts fun text => u (t text) := by
  have joined {bs : List Block}
      (ih : ∀ b ∈ bs, (b.withTexts t).collectedTexts u = b.collectedTexts fun text => u (t text)) :
      (bs.map (withTexts t)).flatMap (collectedTexts u) =
        bs.flatMap (collectedTexts fun text => u (t text)) := by
    rw [List.flatMap_map, List.flatMap_congr ih]
  induction b using Block.induction with
  | leaf | carrier => rfl
  | list type items ih =>
    rw [withTexts_list, collectedTexts_list, collectedTexts_list, List.flatMap_map]
    exact List.flatMap_congr fun item hitem => joined (ih item hitem)
  | quote blocks ih => rw [withTexts_quote, collectedTexts_quote, collectedTexts_quote, joined ih]

theorem withTexts_withTexts (t u : List Inline → List Inline) (b : Block) :
    (b.withTexts t).withTexts u = b.withTexts fun text => u (t text) := by
  have joined {bs : List Block}
      (ih : ∀ b ∈ bs, (b.withTexts t).withTexts u = b.withTexts fun text => u (t text)) :
      (bs.map (withTexts t)).map (withTexts u) = bs.map (withTexts fun text => u (t text)) := by
    rw [List.map_map]
    exact List.map_congr_left ih
  induction b using Block.induction with
  | leaf | carrier => rfl
  | list type items ih =>
    rw [withTexts_list, withTexts_list, withTexts_list, List.map_map]
    congr 1
    exact List.map_congr_left fun item hitem => joined (ih item hitem)
  | quote blocks ih => rw [withTexts_quote, withTexts_quote, withTexts_quote, joined ih]

end Block

/-! ### Documents -/

namespace Document

section Blocks

variable {f g h : Block → List Block} {c d : Block → List α}

theorem collectedBlocks_replacedBlocks
    (node : ∀ b : Block, (b.replaced f).flatMap (Block.collected c) = b.collected d)
    (doc : Document) : (doc.replacedBlocks f).collectedBlocks c = doc.collectedBlocks d := by
  rw [replacedBlocks_eq, collectedBlocks_eq, collectedBlocks_eq]
  exact flatMap_flatMap_congr fun b _ => node b

theorem replacedBlocks_replacedBlocks
    (node : ∀ b : Block, (b.replaced f).flatMap (Block.replaced g) = b.replaced h)
    (doc : Document) : (doc.replacedBlocks f).replacedBlocks g = doc.replacedBlocks h := by
  rw [replacedBlocks_eq, replacedBlocks_eq, replacedBlocks_eq]
  exact flatMap_flatMap_congr fun b _ => node b

end Blocks

section Inlines

variable {f g h : Inline → List Inline} {c d : Inline → List α}

theorem collectedInlines_replacedInlines
    (node : ∀ x : Inline, (x.replaced f).flatMap (Inline.collected c) = x.collected d)
    (doc : Document) : (doc.replacedInlines f).collectedInlines c = doc.collectedInlines d := by
  have texts : (fun text : List Inline =>
      (text.flatMap (Inline.replaced f)).flatMap (Inline.collected c)) =
        List.flatMap (Inline.collected d) :=
    funext fun text => flatMap_flatMap_congr fun x _ => node x
  rw [replacedInlines_eq, collectedInlines_eq, collectedInlines_eq, List.flatMap_map, ← texts]
  exact List.flatMap_congr fun b _ => Block.collectedTexts_withTexts _ _ b

theorem replacedInlines_replacedInlines
    (node : ∀ x : Inline, (x.replaced f).flatMap (Inline.replaced g) = x.replaced h)
    (doc : Document) : (doc.replacedInlines f).replacedInlines g = doc.replacedInlines h := by
  have texts : (fun text : List Inline =>
      (text.flatMap (Inline.replaced f)).flatMap (Inline.replaced g)) =
        List.flatMap (Inline.replaced h) :=
    funext fun text => flatMap_flatMap_congr fun x _ => node x
  rw [replacedInlines_eq, replacedInlines_eq, replacedInlines_eq, List.map_map, ← texts]
  exact List.map_congr_left fun b _ => Block.withTexts_withTexts _ _ b

end Inlines

end Document

end MarkdownTree
