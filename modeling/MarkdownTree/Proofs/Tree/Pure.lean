import MarkdownTree.Proofs.Tree.Collect
import MarkdownTree.Tree.Replace

/-!
Walks by functions without effects. Run in the identity monad a walk is a function of the tree, and its
loops are the `map` and `flatMap` of lists: a node is replaced by what the function gives for it once its
parts have been replaced, and what is collected from it comes after what is collected from its parts.
These equations are all that is needed of the walks where only values matter.
-/

namespace MarkdownTree

variable {α : Type}

/-! ### Replacing inlines -/

section ReplaceInlines

variable (f : Inline → List Inline)

/-- What takes the place of an inline. -/
def Inline.replaced (x : Inline) : List Inline :=
  (Inline.replace (m := Id) (fun y => pure (f y)) x).run

theorem Inline.run_replaceAll (xs : List Inline) :
    (Inline.replaceAll (m := Id) (fun y => pure (f y)) xs).run = xs.flatMap (Inline.replaced f) := by
  induction xs with
  | nil => rfl
  | cons x xs ih =>
    rw [Inline.replaceAll, List.flatMap_cons, ← ih]
    rfl

@[simp] theorem Inline.replaced_leaf (node : LeafInline) :
    Inline.replaced f (.leaf node) = f (.leaf node) := rfl

@[simp] theorem Inline.replaced_span (kind : Span) (children : List Inline) :
    Inline.replaced f (.span kind children) =
      f (.span kind (children.flatMap (Inline.replaced f))) := by
  rw [← Inline.run_replaceAll]
  rfl

end ReplaceInlines

/-! ### Replacing blocks -/

section ReplaceBlocks

variable (f : Block → List Block)

/-- What takes the place of a block. -/
def Block.replaced (b : Block) : List Block :=
  (Block.replace (m := Id) (fun c => pure (f c)) b).run

theorem Block.run_replaceAll (bs : List Block) :
    (Block.replaceAll (m := Id) (fun c => pure (f c)) bs).run = bs.flatMap (Block.replaced f) := by
  induction bs with
  | nil => rfl
  | cons b bs ih =>
    rw [Block.replaceAll, List.flatMap_cons, ← ih]
    rfl

theorem Block.run_replaceItems (items : List (List Block)) :
    (Block.replaceItems (m := Id) (fun c => pure (f c)) items).run =
      items.map fun item => item.flatMap (Block.replaced f) := by
  induction items with
  | nil => rfl
  | cons item items ih =>
    rw [Block.replaceItems, List.map_cons, ← ih, ← Block.run_replaceAll]
    rfl

@[simp] theorem Block.replaced_leaf (node : LeafBlock) :
    Block.replaced f (.leaf node) = f (.leaf node) := rfl

@[simp] theorem Block.replaced_carrier (kind : Carrier) (text : List Inline) :
    Block.replaced f (.carrier kind text) = f (.carrier kind text) := rfl

@[simp] theorem Block.replaced_list (type : ListType) (items : List (List Block)) :
    Block.replaced f (.list type items) =
      f (.list type (items.map fun item => item.flatMap (Block.replaced f))) := by
  rw [← Block.run_replaceItems]
  rfl

@[simp] theorem Block.replaced_quote (blocks : List Block) :
    Block.replaced f (.quote blocks) = f (.quote (blocks.flatMap (Block.replaced f))) := by
  rw [← Block.run_replaceAll]
  rfl

/-- The document with every block replaced by what `f` gives for it. -/
def Document.replacedBlocks (doc : Document) : Document :=
  (doc.replaceBlocks (m := Id) fun b => pure (f b)).run

theorem Document.replacedBlocks_eq (doc : Document) :
    doc.replacedBlocks f = doc.flatMap (Block.replaced f) :=
  Block.run_replaceAll f doc

end ReplaceBlocks

/-! ### Changing texts -/

section Texts

variable (g : List Inline → List Inline)

/-- The block with the text of every paragraph and heading changed. -/
def Block.withTexts (b : Block) : Block :=
  (Block.mapTexts (m := Id) (fun text => pure (g text)) b).run

theorem Block.run_mapTextsAll (bs : List Block) :
    (Block.mapTextsAll (m := Id) (fun text => pure (g text)) bs).run =
      bs.map (Block.withTexts g) := by
  induction bs with
  | nil => rfl
  | cons b bs ih =>
    rw [Block.mapTextsAll, List.map_cons, ← ih]
    rfl

theorem Block.run_mapTextsItems (items : List (List Block)) :
    (Block.mapTextsItems (m := Id) (fun text => pure (g text)) items).run =
      items.map (List.map (Block.withTexts g)) := by
  induction items with
  | nil => rfl
  | cons item items ih =>
    rw [Block.mapTextsItems, List.map_cons, ← ih, ← Block.run_mapTextsAll]
    rfl

@[simp] theorem Block.withTexts_leaf (node : LeafBlock) :
    Block.withTexts g (.leaf node) = .leaf node := rfl

@[simp] theorem Block.withTexts_carrier (kind : Carrier) (text : List Inline) :
    Block.withTexts g (.carrier kind text) = .carrier kind (g text) := rfl

@[simp] theorem Block.withTexts_list (type : ListType) (items : List (List Block)) :
    Block.withTexts g (.list type items) =
      .list type (items.map (List.map (Block.withTexts g))) := by
  rw [← Block.run_mapTextsItems]
  rfl

@[simp] theorem Block.withTexts_quote (blocks : List Block) :
    Block.withTexts g (.quote blocks) = .quote (blocks.map (Block.withTexts g)) := by
  rw [← Block.run_mapTextsAll]
  rfl

/-- The document with every inline replaced by what `f` gives for it. -/
def Document.replacedInlines (f : Inline → List Inline) (doc : Document) : Document :=
  (doc.replaceInlines (m := Id) fun x => pure (f x)).run

theorem Document.replacedInlines_eq (f : Inline → List Inline) (doc : Document) :
    doc.replacedInlines f = doc.map (Block.withTexts (List.flatMap (Inline.replaced f))) := by
  have texts : Inline.replaceAll (m := Id) (fun x => pure (f x)) =
      fun text => pure (text.flatMap (Inline.replaced f)) := funext (Inline.run_replaceAll f)
  rw [Document.replacedInlines, Document.replaceInlines, texts, Block.run_mapTextsAll]

end Texts

/-! ### Collecting from inlines -/

section CollectInlines

variable (c : Inline → List α)

/-- What is collected from an inline and the inlines in it. -/
def Inline.collected (x : Inline) : List α :=
  (Inline.collect (m := Id) (fun y => pure (c y)) x).run

theorem Inline.run_collectAll (xs : List Inline) :
    (Inline.collectAll (m := Id) (fun y => pure (c y)) xs).run =
      xs.flatMap (Inline.collected c) := by
  induction xs with
  | nil => rfl
  | cons x xs ih =>
    rw [Inline.collectAll, List.flatMap_cons, ← ih]
    rfl

@[simp] theorem Inline.collected_leaf (node : LeafInline) :
    Inline.collected c (.leaf node) = c (.leaf node) := rfl

@[simp] theorem Inline.collected_span (kind : Span) (children : List Inline) :
    Inline.collected c (.span kind children) =
      children.flatMap (Inline.collected c) ++ c (.span kind children) := by
  rw [← Inline.run_collectAll]
  rfl

end CollectInlines

/-! ### Collecting from blocks -/

section CollectBlocks

variable (c : Block → List α)

/-- What is collected from a block and the blocks in it. -/
def Block.collected (b : Block) : List α :=
  (Block.collect (m := Id) (fun d => pure (c d)) b).run

theorem Block.run_collectAll (bs : List Block) :
    (Block.collectAll (m := Id) (fun d => pure (c d)) bs).run = bs.flatMap (Block.collected c) := by
  induction bs with
  | nil => rfl
  | cons b bs ih =>
    rw [Block.collectAll, List.flatMap_cons, ← ih]
    rfl

theorem Block.run_collectItems (items : List (List Block)) :
    (Block.collectItems (m := Id) (fun d => pure (c d)) items).run =
      items.flatMap fun item => item.flatMap (Block.collected c) := by
  induction items with
  | nil => rfl
  | cons item items ih =>
    rw [Block.collectItems, List.flatMap_cons, ← ih, ← Block.run_collectAll]
    rfl

@[simp] theorem Block.collected_leaf (node : LeafBlock) :
    Block.collected c (.leaf node) = c (.leaf node) := rfl

@[simp] theorem Block.collected_carrier (kind : Carrier) (text : List Inline) :
    Block.collected c (.carrier kind text) = c (.carrier kind text) := rfl

@[simp] theorem Block.collected_list (type : ListType) (items : List (List Block)) :
    Block.collected c (.list type items) =
      (items.flatMap fun item => item.flatMap (Block.collected c)) ++ c (.list type items) := by
  rw [← Block.run_collectItems]
  rfl

@[simp] theorem Block.collected_quote (blocks : List Block) :
    Block.collected c (.quote blocks) =
      blocks.flatMap (Block.collected c) ++ c (.quote blocks) := by
  rw [← Block.run_collectAll]
  rfl

/-- What `c` gives for the blocks of a document, joined in the order of the walk. -/
def Document.collectedBlocks (doc : Document) : List α :=
  (doc.collectBlocks (m := Id) fun b => pure (c b)).run

theorem Document.collectedBlocks_eq (doc : Document) :
    doc.collectedBlocks c = doc.flatMap (Block.collected c) :=
  Block.run_collectAll c doc

end CollectBlocks

/-! ### Collecting from texts -/

section CollectTexts

variable (g : List Inline → List α)

/-- What is collected from the texts in a block. -/
def Block.collectedTexts (b : Block) : List α :=
  (Block.collectTexts (m := Id) (fun text => pure (g text)) b).run

theorem Block.run_collectTextsAll (bs : List Block) :
    (Block.collectTextsAll (m := Id) (fun text => pure (g text)) bs).run =
      bs.flatMap (Block.collectedTexts g) := by
  induction bs with
  | nil => rfl
  | cons b bs ih =>
    rw [Block.collectTextsAll, List.flatMap_cons, ← ih]
    rfl

theorem Block.run_collectTextsItems (items : List (List Block)) :
    (Block.collectTextsItems (m := Id) (fun text => pure (g text)) items).run =
      items.flatMap fun item => item.flatMap (Block.collectedTexts g) := by
  induction items with
  | nil => rfl
  | cons item items ih =>
    rw [Block.collectTextsItems, List.flatMap_cons, ← ih, ← Block.run_collectTextsAll]
    rfl

@[simp] theorem Block.collectedTexts_leaf (node : LeafBlock) :
    Block.collectedTexts g (.leaf node) = [] := rfl

@[simp] theorem Block.collectedTexts_carrier (kind : Carrier) (text : List Inline) :
    Block.collectedTexts g (.carrier kind text) = g text := rfl

@[simp] theorem Block.collectedTexts_list (type : ListType) (items : List (List Block)) :
    Block.collectedTexts g (.list type items) =
      items.flatMap fun item => item.flatMap (Block.collectedTexts g) :=
  Block.run_collectTextsItems g items

@[simp] theorem Block.collectedTexts_quote (blocks : List Block) :
    Block.collectedTexts g (.quote blocks) = blocks.flatMap (Block.collectedTexts g) :=
  Block.run_collectTextsAll g blocks

/-- What `c` gives for the inlines of a document, joined in the order of the walk. -/
def Document.collectedInlines (c : Inline → List α) (doc : Document) : List α :=
  (doc.collectInlines (m := Id) fun x => pure (c x)).run

theorem Document.collectedInlines_eq (c : Inline → List α) (doc : Document) :
    doc.collectedInlines c =
      doc.flatMap (Block.collectedTexts (List.flatMap (Inline.collected c))) := by
  have texts : Inline.collectAll (m := Id) (fun x => pure (c x)) =
      fun text => pure (text.flatMap (Inline.collected c)) := funext (Inline.run_collectAll c)
  rw [Document.collectedInlines, Document.collectInlines, texts, Block.run_collectTextsAll]

end CollectTexts

/-! ### Collecting along the listing of the nodes -/

theorem run_collectEach {N : Type} (c : N → List α) (nodes : List N) :
    (collectEach (m := Id) (fun node => pure (c node)) nodes).run = nodes.flatMap c := by
  induction nodes with
  | nil => rfl
  | cons node nodes ih =>
    rw [List.flatMap_cons, ← ih]
    rfl

theorem Document.collectedBlocks_eq_flatMap (c : Block → List α) (doc : Document) :
    doc.collectedBlocks c = (doc.occurrences.map Prod.snd).flatMap c := by
  rw [Document.collectedBlocks, Document.collectBlocks_eq, run_collectEach]

theorem Document.collectedInlines_eq_flatMap (c : Inline → List α) (doc : Document) :
    doc.collectedInlines c = (doc.inlineOccurrences.map Prod.snd).flatMap c := by
  rw [Document.collectedInlines, Document.collectInlines_eq, run_collectEach]

/-! ### Filtering -/

/-- The blocks of a document that `p` accepts. -/
def Document.filteredBlocks (p : Block → Bool) (doc : Document) : List Block :=
  (doc.filterBlocks (m := Id) fun b => pure (p b)).run

/-- The inlines of a document that `p` accepts. -/
def Document.filteredInlines (p : Inline → Bool) (doc : Document) : List Inline :=
  (doc.filterInlines (m := Id) fun x => pure (p x)).run

theorem run_collectEach_keepIf {N : Type} (p : N → Bool) (nodes : List N) :
    (collectEach (m := Id) (keepIf fun node => pure (p node)) nodes).run = nodes.filter p := by
  refine (run_collectEach (fun node => if p node then [node] else []) nodes).trans ?_
  induction nodes with
  | nil => rfl
  | cons node nodes ih =>
    rw [List.flatMap_cons, ih, List.filter_cons]
    split <;> rfl

theorem Document.filteredBlocks_eq (p : Block → Bool) (doc : Document) :
    doc.filteredBlocks p = (doc.occurrences.map Prod.snd).filter p := by
  rw [Document.filteredBlocks, Document.filterBlocks, Document.collectBlocks_eq,
    run_collectEach_keepIf]

theorem Document.filteredInlines_eq (p : Inline → Bool) (doc : Document) :
    doc.filteredInlines p = (doc.inlineOccurrences.map Prod.snd).filter p := by
  rw [Document.filteredInlines, Document.filterInlines, Document.collectInlines_eq,
    run_collectEach_keepIf]

end MarkdownTree
