import MarkdownTree.Proofs.Tree.Collect
import MarkdownTree.Proofs.Tree.Rebuild

/-!
The walks over inlines as walks over blocks. Inlines stand in the texts of paragraphs and headings, so a
walk over the inlines of a document is a walk over its blocks that works on the text of each of those and
does nothing at the others. Main statement: `Document.inlineWalks_factor`.
-/

namespace MarkdownTree

variable {m : Type → Type} [Monad m] {α : Type}

/-! ### What is done at a block -/

/-- A paragraph or heading with its text made of what takes the places of its inlines, one inline after
the other; any other block as it is. -/
def Block.replaceOwnInlines (f : Inline → m (List Inline)) : Block → m (List Block)
  | .carrier kind text => do
    let text ← collectEach (Inline.replace f) text
    pure [.carrier kind text]
  | .leaf node => pure [.leaf node]
  | .list type items => pure [.list type items]
  | .quote blocks => pure [.quote blocks]

/-- What is collected from a paragraph or heading alone, and nothing from another block. -/
def Block.collectOwnInlines (f : Inline → m (List α)) : Block → m (List α)
  | .carrier kind text => Document.collectInlines f [.carrier kind text]
  | .leaf _ | .list .. | .quote _ => pure []

/-- Inlines are replaced one by one. -/
theorem Inline.replaceAll_eq (f : Inline → m (List Inline)) (xs : List Inline) :
    Inline.replaceAll f xs = collectEach (Inline.replace f) xs := by
  induction xs with
  | nil => rfl
  | cons x xs ih => rw [Inline.replaceAll, collectEach, ih]

theorem Block.replaceOwnInlines_eq (f : Inline → m (List Inline)) :
    Block.replaceOwnInlines f = Block.replaceWithText f keepNode := by
  funext b
  cases b with
  | carrier kind text =>
    rw [Block.replaceOwnInlines, Block.replaceWithText, Inline.replaceAll_eq]
    rfl
  | leaf | list | quote => rfl

theorem Block.collectOwnInlines_eq [LawfulMonad m] (f : Inline → m (List α)) :
    Block.collectOwnInlines f = Block.collectText (Inline.collectAll f) := by
  funext b
  cases b with
  | carrier kind text =>
    simp [Block.collectOwnInlines, Document.collectInlines, Block.collectTextsAll,
      Block.collectTexts, Block.collectText]
  | leaf | list | quote => rfl

/-! ### A walk over inlines goes through the blocks -/

section Factor

variable [LawfulMonad m]

theorem Document.replaceInlines_eq (f : Inline → m (List Inline)) (doc : Document) :
    doc.replaceInlines f = doc.replaceBlocks (Block.replaceOwnInlines f) := by
  rw [Document.replaceInlines_eq_replaceBlocks, Block.replaceOwnInlines_eq]

theorem Document.collectInlines_eq_collectBlocks (f : Inline → m (List α)) (doc : Document) :
    doc.collectInlines f = doc.collectBlocks (Block.collectOwnInlines f) := by
  rw [Block.collectOwnInlines_eq]
  exact Block.collectTextsAll_eq (Inline.collectAll f) doc

end Factor

/-! ### Runs -/

namespace Walk

/-- Replacing the blocks of a document that carry inlines, as a walk that hands over the inlines. -/
def replaceOwnInlines (doc : Document) : Walk Inline (List Inline) Document :=
  fun _ _ f => doc.replaceBlocks (Block.replaceOwnInlines f)

/-- Collecting from the blocks of a document that carry inlines, as a walk that hands over the inlines. -/
def collectOwnInlines (α : Type) (doc : Document) : Walk Inline (List α) (List α) :=
  fun _ _ f => doc.collectBlocks (Block.collectOwnInlines f)

end Walk

/-- **The walks over inlines factor through the walks over blocks.** From every state, replacing the
inlines of a document comes out as replacing its blocks by a function that works inline by inline on the
text of a paragraph or heading and leaves any other block; and collecting from the inlines comes out as
collecting from the blocks by a function that collects from the inlines of a paragraph or heading alone.
The document or the values, the error, the state and the calls are the same. -/
theorem Document.inlineWalks_factor {ε σ : Type} (doc : Document) (s : σ) :
    (∀ f : Inline → Fallible ε σ (List Inline),
      (doc.replaceInlines f).run.run s =
        (doc.replaceBlocks (Block.replaceOwnInlines f)).run.run s ∧
      (Walk.replaceInlines doc).tryRun f s = (Walk.replaceOwnInlines doc).tryRun f s) ∧
    (∀ f : Inline → Fallible ε σ (List α),
      (doc.collectInlines f).run.run s =
        (doc.collectBlocks (Block.collectOwnInlines f)).run.run s ∧
      (Walk.collectInlines α doc).tryRun f s = (Walk.collectOwnInlines α doc).tryRun f s) := by
  -- A function that keeps a journal is one more function, so the calls agree as the values do.
  constructor
  · intro f
    refine ⟨by rw [Document.replaceInlines_eq], ?_⟩
    exact Walk.tryRun_congr (fun f => doc.replaceInlines_eq f) f s
  · intro f
    refine ⟨by rw [Document.collectInlines_eq_collectBlocks], ?_⟩
    exact Walk.tryRun_congr (fun f => doc.collectInlines_eq_collectBlocks f) f s

end MarkdownTree
