import MarkdownTree.Proofs.Walk.Calls
import MarkdownTree.Tree.Fold
import MarkdownTree.Tree.Replace

/-!
Replacing as a fold. An algebra that builds each node again from its data and what its children became
does what a replacing does. Main statement: `Document.fold_rebuilding_runs`. On the way, a replacing of
inlines is a replacing of the blocks that carry them (`Document.replaceInlines_eq_replaceBlocks`).
-/

namespace MarkdownTree

variable {m : Type → Type} [Monad m]

/-- Leaves a node where it is. -/
def keepNode {N : Type} (node : N) : m (List N) := pure [node]

/-! ### Keeping every node -/

section Keep

variable [LawfulMonad m]

mutual

theorem Inline.replace_keep : ∀ x : Inline, Inline.replace (m := m) keepNode x = pure [x]
  | .leaf node => rfl
  | .span kind children => by
    rw [Inline.replace, Inline.replaceAll_keep children, pure_bind, keepNode]

theorem Inline.replaceAll_keep : ∀ xs : List Inline,
    Inline.replaceAll (m := m) keepNode xs = pure xs
  | [] => rfl
  | x :: xs => by
    rw [Inline.replaceAll, Inline.replace_keep x, pure_bind, Inline.replaceAll_keep xs, pure_bind,
      List.singleton_append]

end

mutual

theorem Block.replace_keep : ∀ b : Block, Block.replace (m := m) keepNode b = pure [b]
  | .leaf node => rfl
  | .carrier kind text => rfl
  | .list type items => by
    rw [Block.replace, Block.replaceItems_keep items, pure_bind, keepNode]
  | .quote blocks => by
    rw [Block.replace, Block.replaceAll_keep blocks, pure_bind, keepNode]

theorem Block.replaceAll_keep : ∀ bs : List Block, Block.replaceAll (m := m) keepNode bs = pure bs
  | [] => rfl
  | b :: bs => by
    rw [Block.replaceAll, Block.replace_keep b, pure_bind, Block.replaceAll_keep bs, pure_bind,
      List.singleton_append]

theorem Block.replaceItems_keep : ∀ items : List (List Block),
    Block.replaceItems (m := m) keepNode items = pure items
  | [] => rfl
  | item :: items => by
    rw [Block.replaceItems, Block.replaceAll_keep item, pure_bind, Block.replaceItems_keep items,
      pure_bind]

end

end Keep

/-! ### Texts and the blocks that carry them -/

section Texts

variable (f : Inline → m (List Inline)) (g : Block → m (List Block))

/-- Replaces the inlines in the text of a paragraph or heading, and then the block. -/
def Block.replaceWithText : Block → m (List Block)
  | .carrier kind text => do
    let text ← Inline.replaceAll f text
    g (.carrier kind text)
  | .leaf node => g (.leaf node)
  | .list type items => g (.list type items)
  | .quote blocks => g (.quote blocks)

theorem Block.replaceWithText_keep [LawfulMonad m] (b : Block) :
    Block.replaceWithText keepNode g b = g b := by
  cases b with
  | carrier kind text => rw [Block.replaceWithText, Inline.replaceAll_keep, pure_bind]
  | leaf | list | quote => rfl

mutual

theorem Block.mapTexts_eq [LawfulMonad m] : ∀ b : Block,
    (do let c ← Block.mapTexts (Inline.replaceAll f) b; pure [c]) =
      Block.replace (Block.replaceWithText f keepNode) b
  | .leaf node => by
    rw [Block.mapTexts, pure_bind]
    rfl
  | .carrier kind text => by
    rw [Block.mapTexts, bind_assoc]
    simp only [pure_bind]
    rfl
  | .list type items => by
    rw [Block.mapTexts, Block.mapTextsItems_eq items, bind_assoc]
    simp only [pure_bind]
    rfl
  | .quote blocks => by
    rw [Block.mapTexts, Block.mapTextsAll_eq blocks, bind_assoc]
    simp only [pure_bind]
    rfl

theorem Block.mapTextsAll_eq [LawfulMonad m] : ∀ bs : List Block,
    Block.mapTextsAll (Inline.replaceAll f) bs =
      Block.replaceAll (Block.replaceWithText f keepNode) bs
  | [] => rfl
  | b :: bs => by
    rw [Block.mapTextsAll, Block.replaceAll, ← Block.mapTexts_eq b, Block.mapTextsAll_eq bs,
      bind_assoc]
    simp only [pure_bind, List.singleton_append]

theorem Block.mapTextsItems_eq [LawfulMonad m] : ∀ items : List (List Block),
    Block.mapTextsItems (Inline.replaceAll f) items =
      Block.replaceItems (Block.replaceWithText f keepNode) items
  | [] => rfl
  | item :: items => by
    rw [Block.mapTextsItems, Block.replaceItems, Block.mapTextsAll_eq item,
      Block.mapTextsItems_eq items]

end

/-- Replacing the inlines of a document is replacing those of its blocks that carry a text. -/
theorem Document.replaceInlines_eq_replaceBlocks [LawfulMonad m] (doc : Document) :
    doc.replaceInlines f = doc.replaceBlocks (Block.replaceWithText f keepNode) :=
  Block.mapTextsAll_eq f doc

end Texts

/-! ### Rebuilding -/

/-- What takes the place of a node: inlines or blocks. -/
inductive Pieces where
  | inlines (xs : List Inline)
  | blocks (bs : List Block)

namespace Pieces

/-- The inlines, none where blocks stand. -/
def toInlines : Pieces → List Inline
  | .inlines xs => xs
  | .blocks _ => []

/-- The blocks, none where inlines stand. -/
def toBlocks : Pieces → List Block
  | .blocks bs => bs
  | .inlines _ => []

def joinInlines (values : List Pieces) : List Inline := values.flatMap toInlines

def joinBlocks (values : List Pieces) : List Block := values.flatMap toBlocks

end Pieces

open Pieces

/-- The algebra that builds every node again, from its data and what its children became, and gives what
`f` makes of an inline and `g` of a block. -/
def Algebra.rebuilding (f : Inline → m (List Inline)) (g : Block → m (List Block)) :
    Algebra m Pieces where
  defaultValue := .blocks []
  inline := {
    text := some fun literal => inlines <$> f (.text literal)
    softBreak := some (inlines <$> f .softBreak)
    lineBreak := some (inlines <$> f .lineBreak)
    code := some fun literal => inlines <$> f (.code literal)
    html := some fun literal => inlines <$> f (.html literal)
    custom := some fun literal => inlines <$> f (.custom literal)
    emphasis := some fun values => inlines <$> f (.span .emphasis (joinInlines values))
    strong := some fun values => inlines <$> f (.span .strong (joinInlines values))
    link := some fun values target => inlines <$> f (.span (.link target) (joinInlines values))
    image := some fun values target => inlines <$> f (.span (.image target) (joinInlines values))
  }
  list := some fun items type => blocks <$> g (.list type (items.map toBlocks))
  listItem := some fun values => pure (.blocks (joinBlocks values))
  quote := some fun values => blocks <$> g (.quote (joinBlocks values))
  codeBlock := some fun text language => blocks <$> g (.codeBlock text language)
  html := some fun literal => blocks <$> g (.html literal)
  paragraph := some fun values => blocks <$> g (.paragraph (joinInlines values))
  heading := some fun values level => blocks <$> g (.heading level (joinInlines values))
  custom := some fun literal => blocks <$> g (.custom literal)
  thematicBreak := some (blocks <$> g .thematicBreak)
  document := some fun values => pure (.blocks (joinBlocks values))

section Rebuilding

variable [LawfulMonad m] (f : Inline → m (List Inline)) (g : Block → m (List Block))

mutual

theorem Inline.fold_rebuilding : ∀ x : Inline,
    Inline.fold (.rebuilding f g) x = inlines <$> Inline.replace f x
  | .leaf node => by cases node <;> rfl
  | .span kind children => by
    have node (values : List Pieces) : (Algebra.rebuilding f g).orDefault
        ((Algebra.rebuilding f g).inline.span values kind) =
        inlines <$> f (.span kind (joinInlines values)) := by
      cases kind <;> rfl
    rw [Inline.fold, Inline.replace, ← Inline.foldAll_rebuilding children, bind_map_left, map_bind]
    exact bind_congr node

theorem Inline.foldAll_rebuilding : ∀ xs : List Inline,
    joinInlines <$> Inline.foldAll (.rebuilding f g) xs = Inline.replaceAll f xs
  | [] => by
    rw [Inline.foldAll, map_pure]
    rfl
  | x :: xs => by
    rw [Inline.foldAll, Inline.replaceAll, Inline.fold_rebuilding x,
      ← Inline.foldAll_rebuilding xs]
    simp [joinInlines, toInlines]

end

mutual

theorem Block.fold_rebuilding : ∀ b : Block,
    Block.fold (.rebuilding f g) b = blocks <$> Block.replace (Block.replaceWithText f g) b
  | .leaf node => by cases node <;> rfl
  | .carrier kind text => by
    have node (values : List Pieces) : (Algebra.rebuilding f g).orDefault
        ((Algebra.rebuilding f g).carrier values kind) =
        blocks <$> g (.carrier kind (joinInlines values)) := by
      cases kind <;> rfl
    rw [Block.fold, Block.replace, Block.replaceWithText, ← Inline.foldAll_rebuilding f g text,
      bind_map_left, map_bind]
    exact bind_congr node
  | .list type items => by
    rw [Block.fold, Block.replace, ← Block.foldItems_rebuilding items, bind_map_left, map_bind]
    rfl
  | .quote bs => by
    rw [Block.fold, Block.replace, ← Block.foldAll_rebuilding bs, bind_map_left, map_bind]
    rfl

theorem Block.foldAll_rebuilding : ∀ bs : List Block,
    joinBlocks <$> Block.foldAll (.rebuilding f g) bs =
      Block.replaceAll (Block.replaceWithText f g) bs
  | [] => by
    rw [Block.foldAll, map_pure]
    rfl
  | b :: bs => by
    rw [Block.foldAll, Block.replaceAll, Block.fold_rebuilding b, ← Block.foldAll_rebuilding bs]
    simp [joinBlocks, toBlocks]

theorem Block.foldItems_rebuilding : ∀ items : List (List Block),
    List.map toBlocks <$> Block.foldItems (.rebuilding f g) items =
      Block.replaceItems (Block.replaceWithText f g) items
  | [] => by
    rw [Block.foldItems, map_pure]
    rfl
  | item :: items => by
    have node (values : List Pieces) : (Algebra.rebuilding f g).orDefault
        ((Algebra.rebuilding f g).listItem.map (· values)) =
        pure (.blocks (joinBlocks values)) := rfl
    rw [Block.foldItems, Block.replaceItems, ← Block.foldAll_rebuilding item,
      ← Block.foldItems_rebuilding items]
    simp [node, toBlocks]

end

/-- The fold that rebuilds a document is a replacing. -/
theorem Document.fold_rebuilding (doc : Document) :
    doc.fold (.rebuilding f g) = blocks <$> doc.replaceBlocks (Block.replaceWithText f g) := by
  rw [Document.fold, Document.replaceBlocks, ← Block.foldAll_rebuilding]
  simp only [map_eq_pure_bind, bind_assoc, pure_bind]
  rfl

end Rebuilding

/-! ### Runs -/

section Runs

variable {ε σ : Type} (doc : Document) (s : σ)

theorem Document.run_fold_inlines (f : Inline → Fallible ε σ (List Inline)) :
    (doc.fold (.rebuilding f keepNode)).run.run s =
      Prod.map (Except.map Pieces.blocks) id ((doc.replaceInlines f).run.run s) := by
  rw [Document.fold_rebuilding, Document.replaceInlines_eq_replaceBlocks, Fallible.run_map]

theorem Document.run_fold_blocks (g : Block → Fallible ε σ (List Block)) :
    (doc.fold (.rebuilding keepNode g)).run.run s =
      Prod.map (Except.map Pieces.blocks) id ((doc.replaceBlocks g).run.run s) := by
  have keep : Block.replaceWithText keepNode g = g := funext (Block.replaceWithText_keep g)
  rw [Document.fold_rebuilding, keep, Fallible.run_map]

/-- **A replacing is a fold.** From every state, folding by the algebra that rebuilds the nodes, and calls
a function on each inline or on each block, comes out as replacing by that function: with the blocks of
the same document or with the same error, and in the same state. Where nothing is called, the document
comes back. -/
theorem Document.fold_rebuilding_runs :
    (∀ f : Inline → Fallible ε σ (List Inline),
      (doc.fold (.rebuilding f keepNode)).run.run s =
        Prod.map (Except.map Pieces.blocks) id ((doc.replaceInlines f).run.run s)) ∧
    (∀ g : Block → Fallible ε σ (List Block),
      (doc.fold (.rebuilding keepNode g)).run.run s =
        Prod.map (Except.map Pieces.blocks) id ((doc.replaceBlocks g).run.run s)) ∧
    (doc.fold (.rebuilding keepNode keepNode : Algebra (Fallible ε σ) Pieces)).run.run s =
      (.ok (.blocks doc), s) := by
  refine ⟨doc.run_fold_inlines s, doc.run_fold_blocks s, ?_⟩
  rw [Document.run_fold_blocks, Document.replaceBlocks, Block.replaceAll_keep]
  rfl

end Runs

end MarkdownTree
