import MarkdownTree.Proofs.Tree.Every
import MarkdownTree.Proofs.Tree.Pure
import Mathlib.Data.List.Basic

/-!
One pass is enough. A node that a function gives back alone is fixed by it. Where what the function gives
for a node with only fixed nodes in it is fixed at every depth, a replacing leaves only fixed nodes, and a
second one changes nothing. Main statement: `Document.replaced_settled`.
-/

namespace MarkdownTree

variable {N : Type}

/-! ### Fixed nodes -/

/-- The function gives the node back, alone. -/
def Fixes (f : N → List N) (node : N) : Prop := f node = [node]

/-- Deletes a node that the predicate holds of, and keeps another. -/
def dropIf (p : N → Bool) (node : N) : List N := if p node then [] else [node]

theorem fixes_dropIf {p : N → Bool} {node : N} : Fixes (dropIf p) node ↔ p node = false := by
  unfold Fixes dropIf
  cases p node <;> simp

theorem map_of_eq {f : N → N} {nodes : List N} (h : ∀ node ∈ nodes, f node = node) :
    nodes.map f = nodes := by
  rw [List.map_congr_left h, List.map_id']

theorem flatMap_of_fixes {f : N → List N} {nodes : List N} (h : ∀ node ∈ nodes, Fixes f node) :
    nodes.flatMap f = nodes := by
  rw [List.flatMap_congr h, List.flatMap_singleton']

/-! ### Inlines -/

namespace Inline

variable {P : Inline → Prop} {f : Inline → List Inline}

/-- Where only fixed inlines are inside an inline, all that `f` gives for it is fixed, at every depth. -/
def Settles (f : Inline → List Inline) : Prop :=
  ∀ x, (∀ r y, r ≠ [] → at? r x = some y → Fixes f y) →
    ∀ (i : Nat) (r : Address) (y : Inline), (f x)[i]?.bind (at? r) = some y → Fixes f y

theorem settles_iff : Settles f ↔ ∀ x, x.EveryInside (Fixes f) → EveryOf (Fixes f) (f x) := by
  simp only [Settles, everyInside_iff, everyOf_iff_at?]

/-- Whatever `f` gives for an inline has a property at every depth if the inlines inside have it. So has
all that a replacing by `f` leaves. -/
theorem everyOf_replaced (h : ∀ x, x.EveryInside P → EveryOf P (f x)) (x : Inline) :
    EveryOf P (x.replaced f) := by
  induction x using Inline.induction with
  | leaf node => exact h (.leaf node) trivial
  | span kind children ih =>
    -- The span is judged with what has taken the places of its children inside it.
    rw [replaced_span]
    exact h (.span kind _) (everyOf_flatMap.mpr ih)

/-- Where all inlines are fixed, nothing is replaced. -/
theorem replaced_of_every {x : Inline} (h : x.Every (Fixes f)) : Fixes (replaced f) x := by
  induction x using Inline.induction with
  | leaf node => exact h
  | span kind children ih =>
    obtain ⟨here, below⟩ := h
    have kept : children.flatMap (replaced f) = children :=
      flatMap_of_fixes fun x hx => ih x hx (everyOf_iff.mp below x hx)
    rw [Fixes, replaced_span, kept]
    exact here

theorem settles_dropIf (p : Inline → Bool) : Settles (dropIf p) := by
  rw [settles_iff]
  intro x inside
  cases hp : p x with
  | true =>
    rw [dropIf, if_pos hp]
    trivial
  | false =>
    have here : Fixes (dropIf p) x := fixes_dropIf.mpr hp
    rw [here]
    exact ⟨every_iff_inside.mpr ⟨here, inside⟩, trivial⟩

end Inline

/-! ### Blocks -/

namespace Block

variable {Q : Block → Prop} {f : Block → List Block}

/-- Where only fixed blocks are inside a block, all that `f` gives for it is fixed, at every depth. -/
def Settles (f : Block → List Block) : Prop :=
  ∀ b, (∀ r c, r ≠ [] → at? r b = some c → Fixes f c) →
    ∀ p c, Document.at? (f b) p = some c → Fixes f c

theorem settles_iff : Settles f ↔ ∀ b, b.EveryInside (Fixes f) → EveryOf (Fixes f) (f b) := by
  simp only [Settles, everyInside_iff, Document.everyOf_iff]

theorem everyOf_replaced (h : ∀ b, b.EveryInside Q → EveryOf Q (f b)) (b : Block) :
    EveryOf Q (b.replaced f) := by
  induction b using Block.induction with
  | leaf node => exact h (.leaf node) trivial
  | carrier kind text => exact h (.carrier kind text) trivial
  | list type items ih =>
    rw [replaced_list]
    refine h (.list type _) (everyOfItems_map.mpr ?_)
    exact fun item hitem => everyOf_flatMap.mpr (ih item hitem)
  | quote blocks ih =>
    rw [replaced_quote]
    exact h (.quote _) (everyOf_flatMap.mpr ih)

theorem replaced_of_every {b : Block} (h : b.Every (Fixes f)) : Fixes (replaced f) b := by
  have kept {bs : List Block} (ih : ∀ b ∈ bs, b.Every (Fixes f) → Fixes (replaced f) b)
      (below : EveryOf (Fixes f) bs) : bs.flatMap (replaced f) = bs :=
    flatMap_of_fixes fun b hb => ih b hb (everyOf_iff.mp below b hb)
  induction b using Block.induction with
  | leaf | carrier => exact h
  | list type items ih =>
    obtain ⟨here, below⟩ := h
    have keptItems : (items.map fun item => item.flatMap (replaced f)) = items :=
      map_of_eq fun item hitem => kept (ih item hitem) (everyOfItems_iff.mp below item hitem)
    rw [Fixes, replaced_list, keptItems]
    exact here
  | quote blocks ih =>
    obtain ⟨here, below⟩ := h
    rw [Fixes, replaced_quote, kept ih below]
    exact here

theorem settles_dropIf (p : Block → Bool) : Settles (dropIf p) := by
  rw [settles_iff]
  intro b inside
  cases hp : p b with
  | true =>
    rw [dropIf, if_pos hp]
    trivial
  | false =>
    have here : Fixes (dropIf p) b := fixes_dropIf.mpr hp
    rw [here]
    exact ⟨every_iff_inside.mpr ⟨here, inside⟩, trivial⟩

/-! ### Texts -/

theorem every_withTexts {P : Inline → Prop} {g : List Inline → List Inline}
    (h : ∀ text, Inline.EveryOf P (g text)) (b : Block) :
    (b.withTexts g).Every fun c => Inline.EveryOf P c.text := by
  induction b using Block.induction with
  | leaf node => trivial
  | carrier kind text => exact h text
  | list type items ih =>
    rw [withTexts_list]
    exact ⟨trivial, everyOfItems_map.mpr fun item hitem => everyOf_map.mpr (ih item hitem)⟩
  | quote blocks ih =>
    rw [withTexts_quote]
    exact ⟨trivial, everyOf_map.mpr ih⟩

theorem withTexts_of_every {g : List Inline → List Inline} {b : Block}
    (h : b.Every fun c => g c.text = c.text) : b.withTexts g = b := by
  have kept {bs : List Block}
      (ih : ∀ b ∈ bs, (b.Every fun c => g c.text = c.text) → b.withTexts g = b)
      (below : EveryOf (fun c => g c.text = c.text) bs) : bs.map (withTexts g) = bs :=
    map_of_eq fun b hb => ih b hb (everyOf_iff.mp below b hb)
  induction b using Block.induction with
  | leaf node => rfl
  | carrier kind text =>
    rw [withTexts_carrier]
    exact congrArg (carrier kind) h
  | list type items ih =>
    obtain ⟨-, below⟩ := h
    have keptItems : items.map (List.map (withTexts g)) = items :=
      map_of_eq fun item hitem => kept (ih item hitem) (everyOfItems_iff.mp below item hitem)
    rw [withTexts_list, keptItems]
  | quote blocks ih =>
    obtain ⟨-, below⟩ := h
    rw [withTexts_quote, kept ih below]

end Block

/-! ### Documents -/

namespace Document

section Blocks

variable {Q : Block → Prop} {f : Block → List Block} {doc : Document}

theorem everyOf_replacedBlocks (h : ∀ b, b.EveryInside Q → Block.EveryOf Q (f b))
    (doc : Document) : Block.EveryOf Q (doc.replacedBlocks f) := by
  rw [replacedBlocks_eq]
  exact Block.everyOf_flatMap.mpr fun b _ => Block.everyOf_replaced h b

theorem replacedBlocks_of_every (h : Block.EveryOf (Fixes f) doc) : doc.replacedBlocks f = doc := by
  rw [replacedBlocks_eq]
  exact flatMap_of_fixes fun b hb => Block.replaced_of_every (Block.everyOf_iff.mp h b hb)

theorem filteredBlocks_eq_nil {p : Block → Bool} (h : ∀ q b, doc.at? q = some b → p b = false) :
    doc.filteredBlocks p = [] := by
  rw [filteredBlocks_eq, List.filter_eq_nil_iff]
  intro b hb
  obtain ⟨⟨q, c⟩, hc, rfl⟩ := List.mem_map.mp hb
  rw [h q c (mem_occurrences.mp hc)]
  exact Bool.false_ne_true

end Blocks

section Inlines

variable {P : Inline → Prop} {f : Inline → List Inline} {doc : Document}

theorem everyInline_replacedInlines (h : ∀ x, x.EveryInside P → Inline.EveryOf P (f x))
    (doc : Document) :
    Block.EveryOf (fun b => Inline.EveryOf P b.text) (doc.replacedInlines f) := by
  have texts (text : List Inline) : Inline.EveryOf P (text.flatMap (Inline.replaced f)) :=
    Inline.everyOf_flatMap.mpr fun x _ => Inline.everyOf_replaced h x
  rw [replacedInlines_eq]
  exact Block.everyOf_map.mpr fun b _ => Block.every_withTexts texts b

theorem replacedInlines_of_every
    (h : Block.EveryOf (fun b => Inline.EveryOf (Fixes f) b.text) doc) :
    doc.replacedInlines f = doc := by
  have kept (b : Block) (hb : Inline.EveryOf (Fixes f) b.text) :
      b.text.flatMap (Inline.replaced f) = b.text :=
    flatMap_of_fixes fun x hx => Inline.replaced_of_every (Inline.everyOf_iff.mp hb x hx)
  rw [replacedInlines_eq]
  refine map_of_eq fun b hb => Block.withTexts_of_every (Block.every_iff.mpr ?_)
  intro r c hc
  exact kept c (Block.every_iff.mp (Block.everyOf_iff.mp h b hb) r c hc)

theorem filteredInlines_eq_nil {p : Inline → Bool} (h : ∀ q x, doc.HasInline q x → p x = false) :
    doc.filteredInlines p = [] := by
  rw [filteredInlines_eq, List.filter_eq_nil_iff]
  intro x hx
  obtain ⟨⟨q, y⟩, hy, rfl⟩ := List.mem_map.mp hx
  rw [h q y (mem_inlineOccurrences.mp hy)]
  exact Bool.false_ne_true

end Inlines

theorem replacedBlocks_settled {f : Block → List Block} (h : Block.Settles f) (doc : Document) :
    (∀ q b, (doc.replacedBlocks f).at? q = some b → Fixes f b) ∧
      (doc.replacedBlocks f).replacedBlocks f = doc.replacedBlocks f := by
  have every := everyOf_replacedBlocks (Block.settles_iff.mp h) doc
  exact ⟨everyOf_iff.mp every, replacedBlocks_of_every every⟩

theorem replacedInlines_settled {f : Inline → List Inline} (h : Inline.Settles f)
    (doc : Document) :
    (∀ q x, (doc.replacedInlines f).HasInline q x → Fixes f x) ∧
      (doc.replacedInlines f).replacedInlines f = doc.replacedInlines f := by
  have every := everyInline_replacedInlines (Inline.settles_iff.mp h) doc
  exact ⟨everyInline_iff.mp every, replacedInlines_of_every every⟩

/-- **One pass settles a document.** Where what a function gives for a node with only fixed nodes inside
is fixed at every depth, all nodes that a replacing leaves are fixed, and a second replacing changes
nothing. A deletion by a predicate is such a function: it leaves no node that the predicate holds of,
although a container is judged by what the deletion has left in it. -/
theorem replaced_settled (doc : Document) :
    (∀ f : Block → List Block, Block.Settles f →
      (∀ q b, (doc.replacedBlocks f).at? q = some b → Fixes f b) ∧
      (doc.replacedBlocks f).replacedBlocks f = doc.replacedBlocks f) ∧
    (∀ p : Block → Bool, Block.Settles (dropIf p) ∧
      (∀ q b, (doc.replacedBlocks (dropIf p)).at? q = some b → p b = false) ∧
      (doc.replacedBlocks (dropIf p)).filteredBlocks p = []) ∧
    (∀ f : Inline → List Inline, Inline.Settles f →
      (∀ q x, (doc.replacedInlines f).HasInline q x → Fixes f x) ∧
      (doc.replacedInlines f).replacedInlines f = doc.replacedInlines f) ∧
    (∀ p : Inline → Bool, Inline.Settles (dropIf p) ∧
      (∀ q x, (doc.replacedInlines (dropIf p)).HasInline q x → p x = false) ∧
      (doc.replacedInlines (dropIf p)).filteredInlines p = []) := by
  refine ⟨fun f h => replacedBlocks_settled h doc, ?_, fun f h => replacedInlines_settled h doc, ?_⟩
  · intro p
    have settles := Block.settles_dropIf p
    have spared : ∀ q b, (doc.replacedBlocks (dropIf p)).at? q = some b → p b = false :=
      fun q b hb => fixes_dropIf.mp ((replacedBlocks_settled settles doc).1 q b hb)
    exact ⟨settles, spared, filteredBlocks_eq_nil spared⟩
  · intro p
    have settles := Inline.settles_dropIf p
    have spared : ∀ q x, (doc.replacedInlines (dropIf p)).HasInline q x → p x = false :=
      fun q x hx => fixes_dropIf.mp ((replacedInlines_settled settles doc).1 q x hx)
    exact ⟨settles, spared, filteredInlines_eq_nil spared⟩

/-! ### Taking containers apart -/

/-- Puts the blocks of a quote in its place. -/
def unquote : Block → List Block
  | .quote blocks => blocks
  | b => [b]

/-- Puts the text of an emphasis in its place. -/
def unstress : Inline → List Inline
  | .span .emphasis children => children
  | x => [x]

theorem settles_unquote : Block.Settles unquote := by
  rw [Block.settles_iff]
  intro b inside
  cases b with
  | quote blocks => exact inside
  | leaf | carrier | list => exact ⟨Block.every_iff_inside.mpr ⟨rfl, inside⟩, trivial⟩

theorem settles_unstress : Inline.Settles unstress := by
  rw [Inline.settles_iff]
  intro x inside
  cases x with
  | leaf node => exact ⟨Inline.every_iff_inside.mpr ⟨rfl, inside⟩, trivial⟩
  | span kind children =>
    cases kind with
    | emphasis => exact inside
    | strong | link | image => exact ⟨Inline.every_iff_inside.mpr ⟨rfl, inside⟩, trivial⟩

/-- Quotes in quotes, and an emphasis in an emphasis, are gone after one pass. -/
theorem replaced_settled_nested :
    let doc : Document := [.quote [.quote [.list .ordered [[.quote [.thematicBreak]]]],
      .paragraph [.span .emphasis [.span .emphasis [.text "a"], .text "b"]]]]
    let plain : Document := [.list .ordered [[.thematicBreak]],
      .paragraph [.span .emphasis [.span .emphasis [.text "a"], .text "b"]]]
    let even : Document := [.quote [.quote [.list .ordered [[.quote [.thematicBreak]]]],
      .paragraph [.text "a", .text "b"]]]
    Block.Settles unquote ∧ doc.replacedBlocks unquote = plain ∧
      (∀ q b, plain.at? q = some b → Fixes unquote b) ∧ plain.replacedBlocks unquote = plain ∧
    Inline.Settles unstress ∧ doc.replacedInlines unstress = even ∧
      (∀ q x, even.HasInline q x → Fixes unstress x) ∧ even.replacedInlines unstress = even := by
  intro doc plain even
  obtain ⟨blocks, -, inlines, -⟩ := replaced_settled doc
  exact ⟨settles_unquote, rfl, (blocks unquote settles_unquote).1,
    (blocks unquote settles_unquote).2, settles_unstress, rfl,
    (inlines unstress settles_unstress).1, (inlines unstress settles_unstress).2⟩

end Document

end MarkdownTree
