import MarkdownTree.Proofs.Walk.Dialogue
import MarkdownTree.Tree.Collect
import MarkdownTree.Tree.Replace

/-!
The walks over a document do the same in every monad: a map from one monad to another takes the walk
with a function to the walk with the mapped function. For each walk this is one induction over the
tree, with a case for each of the functions that recur through it.
-/

namespace MarkdownTree

variable {m n : Type → Type} [Monad m] [Monad n] (φ : MonadHom m n) {α : Type}

/-! ### Replacing -/

section Replace

variable (f : Inline → m (List Inline))

mutual

theorem Inline.map_replace : ∀ x : Inline,
    φ.map (Inline.replace f x) = Inline.replace (fun y => φ.map (f y)) x
  | .leaf node => rfl
  | .span kind children => by
    rw [Inline.replace, Inline.replace, φ.map_bind, Inline.map_replaceAll children]

theorem Inline.map_replaceAll : ∀ xs : List Inline,
    φ.map (Inline.replaceAll f xs) = Inline.replaceAll (fun y => φ.map (f y)) xs
  | [] => φ.map_pure []
  | x :: xs => by
    simp only [Inline.replaceAll, φ.map_bind, φ.map_pure, Inline.map_replace x,
      Inline.map_replaceAll xs]

end

end Replace

section ReplaceBlocks

variable (f : Block → m (List Block))

mutual

theorem Block.map_replace : ∀ b : Block,
    φ.map (Block.replace f b) = Block.replace (fun c => φ.map (f c)) b
  | .leaf node => rfl
  | .carrier kind text => rfl
  | .list type items => by
    rw [Block.replace, Block.replace, φ.map_bind, Block.map_replaceItems items]
  | .quote blocks => by
    rw [Block.replace, Block.replace, φ.map_bind, Block.map_replaceAll blocks]

theorem Block.map_replaceAll : ∀ bs : List Block,
    φ.map (Block.replaceAll f bs) = Block.replaceAll (fun c => φ.map (f c)) bs
  | [] => φ.map_pure []
  | b :: bs => by
    simp only [Block.replaceAll, φ.map_bind, φ.map_pure, Block.map_replace b,
      Block.map_replaceAll bs]

theorem Block.map_replaceItems : ∀ items : List (List Block),
    φ.map (Block.replaceItems f items) = Block.replaceItems (fun c => φ.map (f c)) items
  | [] => φ.map_pure []
  | item :: items => by
    simp only [Block.replaceItems, φ.map_bind, φ.map_pure, Block.map_replaceAll item,
      Block.map_replaceItems items]

end

end ReplaceBlocks

section MapTexts

variable (g : List Inline → m (List Inline))

mutual

theorem Block.map_mapTexts : ∀ b : Block,
    φ.map (Block.mapTexts g b) = Block.mapTexts (fun text => φ.map (g text)) b
  | .leaf node => φ.map_pure _
  | .carrier kind text => by simp only [Block.mapTexts, φ.map_bind, φ.map_pure]
  | .list type items => by
    simp only [Block.mapTexts, φ.map_bind, φ.map_pure, Block.map_mapTextsItems items]
  | .quote blocks => by
    simp only [Block.mapTexts, φ.map_bind, φ.map_pure, Block.map_mapTextsAll blocks]

theorem Block.map_mapTextsAll : ∀ bs : List Block,
    φ.map (Block.mapTextsAll g bs) = Block.mapTextsAll (fun text => φ.map (g text)) bs
  | [] => φ.map_pure []
  | b :: bs => by
    simp only [Block.mapTextsAll, φ.map_bind, φ.map_pure, Block.map_mapTexts b,
      Block.map_mapTextsAll bs]

theorem Block.map_mapTextsItems : ∀ items : List (List Block),
    φ.map (Block.mapTextsItems g items) = Block.mapTextsItems (fun text => φ.map (g text)) items
  | [] => φ.map_pure []
  | item :: items => by
    simp only [Block.mapTextsItems, φ.map_bind, φ.map_pure, Block.map_mapTextsAll item,
      Block.map_mapTextsItems items]

end

end MapTexts

/-! ### Collecting -/

section Collect

variable (f : Inline → m (List α))

mutual

theorem Inline.map_collect : ∀ x : Inline,
    φ.map (Inline.collect f x) = Inline.collect (fun y => φ.map (f y)) x
  | .leaf node => rfl
  | .span kind children => by
    simp only [Inline.collect, φ.map_bind, φ.map_pure, Inline.map_collectAll children]

theorem Inline.map_collectAll : ∀ xs : List Inline,
    φ.map (Inline.collectAll f xs) = Inline.collectAll (fun y => φ.map (f y)) xs
  | [] => φ.map_pure []
  | x :: xs => by
    simp only [Inline.collectAll, φ.map_bind, φ.map_pure, Inline.map_collect x,
      Inline.map_collectAll xs]

end

end Collect

section CollectBlocks

variable (f : Block → m (List α))

mutual

theorem Block.map_collect : ∀ b : Block,
    φ.map (Block.collect f b) = Block.collect (fun c => φ.map (f c)) b
  | .leaf node => rfl
  | .carrier kind text => rfl
  | .list type items => by
    simp only [Block.collect, φ.map_bind, φ.map_pure, Block.map_collectItems items]
  | .quote blocks => by
    simp only [Block.collect, φ.map_bind, φ.map_pure, Block.map_collectAll blocks]

theorem Block.map_collectAll : ∀ bs : List Block,
    φ.map (Block.collectAll f bs) = Block.collectAll (fun c => φ.map (f c)) bs
  | [] => φ.map_pure []
  | b :: bs => by
    simp only [Block.collectAll, φ.map_bind, φ.map_pure, Block.map_collect b,
      Block.map_collectAll bs]

theorem Block.map_collectItems : ∀ items : List (List Block),
    φ.map (Block.collectItems f items) = Block.collectItems (fun c => φ.map (f c)) items
  | [] => φ.map_pure []
  | item :: items => by
    simp only [Block.collectItems, φ.map_bind, φ.map_pure, Block.map_collectAll item,
      Block.map_collectItems items]

end

end CollectBlocks

section CollectTexts

variable (g : List Inline → m (List α))

mutual

theorem Block.map_collectTexts : ∀ b : Block,
    φ.map (Block.collectTexts g b) = Block.collectTexts (fun text => φ.map (g text)) b
  | .leaf node => φ.map_pure _
  | .carrier kind text => rfl
  | .list type items => by
    rw [Block.collectTexts, Block.collectTexts, Block.map_collectTextsItems items]
  | .quote blocks => by
    rw [Block.collectTexts, Block.collectTexts, Block.map_collectTextsAll blocks]

theorem Block.map_collectTextsAll : ∀ bs : List Block,
    φ.map (Block.collectTextsAll g bs) = Block.collectTextsAll (fun text => φ.map (g text)) bs
  | [] => φ.map_pure []
  | b :: bs => by
    simp only [Block.collectTextsAll, φ.map_bind, φ.map_pure, Block.map_collectTexts b,
      Block.map_collectTextsAll bs]

theorem Block.map_collectTextsItems : ∀ items : List (List Block),
    φ.map (Block.collectTextsItems g items) =
      Block.collectTextsItems (fun text => φ.map (g text)) items
  | [] => φ.map_pure []
  | item :: items => by
    simp only [Block.collectTextsItems, φ.map_bind, φ.map_pure, Block.map_collectTextsAll item,
      Block.map_collectTextsItems items]

end

end CollectTexts

theorem map_keepIf {N : Type} (p : N → m Bool) (node : N) :
    φ.map (keepIf p node) = keepIf (fun node => φ.map (p node)) node := by
  simp only [keepIf, φ.map_bind, φ.map_pure]

/-! ### The walks over a document, as walks in any monad -/

namespace Walk

def replaceBlocks (doc : Document) : Walk Block (List Block) Document :=
  fun _ _ f => doc.replaceBlocks f

def replaceInlines (doc : Document) : Walk Inline (List Inline) Document :=
  fun _ _ f => doc.replaceInlines f

def replaceInline (x : Inline) : Walk Inline (List Inline) (List Inline) :=
  fun _ _ f => x.replace f

def collectBlocks (α : Type) (doc : Document) : Walk Block (List α) (List α) :=
  fun _ _ f => doc.collectBlocks f

def collectInlines (α : Type) (doc : Document) : Walk Inline (List α) (List α) :=
  fun _ _ f => doc.collectInlines f

def filterBlocks (doc : Document) : Walk Block Bool (List Block) :=
  fun _ _ p => doc.filterBlocks p

def filterInlines (doc : Document) : Walk Inline Bool (List Inline) :=
  fun _ _ p => doc.filterInlines p

theorem natural_replaceBlocks (doc : Document) : (replaceBlocks doc).Natural :=
  fun φ f => Block.map_replaceAll φ f doc

theorem natural_replaceInlines (doc : Document) : (replaceInlines doc).Natural := by
  intro m n _ _ φ f
  simp only [replaceInlines, Document.replaceInlines, Block.map_mapTextsAll,
    Inline.map_replaceAll]

theorem natural_replaceInline (x : Inline) : (replaceInline x).Natural :=
  fun φ f => Inline.map_replace φ f x

theorem natural_collectBlocks (α : Type) (doc : Document) : (collectBlocks α doc).Natural :=
  fun φ f => Block.map_collectAll φ f doc

theorem natural_collectInlines (α : Type) (doc : Document) : (collectInlines α doc).Natural := by
  intro m n _ _ φ f
  simp only [collectInlines, Document.collectInlines, Block.map_collectTextsAll,
    Inline.map_collectAll]

theorem natural_filterBlocks (doc : Document) : (filterBlocks doc).Natural := by
  intro m n _ _ φ p
  simp only [filterBlocks, Document.filterBlocks, Document.collectBlocks, Block.map_collectAll,
    map_keepIf]

theorem natural_filterInlines (doc : Document) : (filterInlines doc).Natural := by
  intro m n _ _ φ p
  simp only [filterInlines, Document.filterInlines, Document.collectInlines,
    Block.map_collectTextsAll, Inline.map_collectAll, map_keepIf]

end Walk

end MarkdownTree
