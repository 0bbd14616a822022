import MarkdownTree.Tree

/-!
Collecting from a tree: a function gives a list of values for every node, and the lists are joined
in the order of the walk, which is depth first and left to right with a container after its content.
Filtering collects the nodes themselves. The tree is not changed.

The function runs in any monad, as for a replacing; after a failure there are no values.
-/

namespace MarkdownTree

variable {m : Type → Type} [Monad m] {α : Type}

/-! ### Inlines -/

mutual

/-- Collects from an inline, its descendants first. -/
def Inline.collect (f : Inline → m (List α)) : Inline → m (List α)
  | .leaf node => f (.leaf node)
  | .span kind children => do
    let below ← Inline.collectAll f children
    let here ← f (.span kind children)
    pure (below ++ here)

/-- Collects from inlines in order. -/
def Inline.collectAll (f : Inline → m (List α)) : List Inline → m (List α)
  | [] => pure []
  | x :: xs => do
    let first ← Inline.collect f x
    let rest ← Inline.collectAll f xs
    pure (first ++ rest)

end

/-! ### Blocks -/

mutual

/-- Collects from a block, the blocks in it first. -/
def Block.collect (f : Block → m (List α)) : Block → m (List α)
  | .leaf node => f (.leaf node)
  | .carrier kind text => f (.carrier kind text)
  | .list type items => do
    let below ← Block.collectItems f items
    let here ← f (.list type items)
    pure (below ++ here)
  | .quote blocks => do
    let below ← Block.collectAll f blocks
    let here ← f (.quote blocks)
    pure (below ++ here)

/-- Collects from blocks in order. -/
def Block.collectAll (f : Block → m (List α)) : List Block → m (List α)
  | [] => pure []
  | b :: bs => do
    let first ← Block.collect f b
    let rest ← Block.collectAll f bs
    pure (first ++ rest)

/-- Collects from the blocks of each item in order. -/
def Block.collectItems (f : Block → m (List α)) : List (List Block) → m (List α)
  | [] => pure []
  | item :: items => do
    let first ← Block.collectAll f item
    let rest ← Block.collectItems f items
    pure (first ++ rest)

end

/-! ### Texts -/

mutual

/-- Collects from the text of every paragraph and heading of a block. -/
def Block.collectTexts (g : List Inline → m (List α)) : Block → m (List α)
  | .leaf _ => pure []
  | .carrier _ text => g text
  | .list _ items => Block.collectTextsItems g items
  | .quote blocks => Block.collectTextsAll g blocks

/-- Collects from the texts of blocks in order. -/
def Block.collectTextsAll (g : List Inline → m (List α)) : List Block → m (List α)
  | [] => pure []
  | b :: bs => do
    let first ← Block.collectTexts g b
    let rest ← Block.collectTextsAll g bs
    pure (first ++ rest)

/-- Collects from the texts of each item in order. -/
def Block.collectTextsItems (g : List Inline → m (List α)) : List (List Block) → m (List α)
  | [] => pure []
  | item :: items => do
    let first ← Block.collectTextsAll g item
    let rest ← Block.collectTextsItems g items
    pure (first ++ rest)

end

/-! ### Documents -/

/-- Collects from every block of a document, at every depth. Inlines are not visited. -/
def Document.collectBlocks (f : Block → m (List α)) (doc : Document) : m (List α) :=
  Block.collectAll f doc

/-- Collects from every inline of a document, in every text at every depth. -/
def Document.collectInlines (f : Inline → m (List α)) (doc : Document) : m (List α) :=
  Block.collectTextsAll (Inline.collectAll f) doc

/-- A node where the predicate holds, nothing elsewhere. -/
def keepIf {N : Type} (p : N → m Bool) (node : N) : m (List N) := do
  let accepted ← p node
  pure (if accepted then [node] else [])

/-- The blocks of a document that `p` accepts, in the order of `collectBlocks`. -/
def Document.filterBlocks (p : Block → m Bool) (doc : Document) : m (List Block) :=
  doc.collectBlocks (keepIf p)

/-- The inlines of a document that `p` accepts, in the order of `collectInlines`. -/
def Document.filterInlines (p : Inline → m Bool) (doc : Document) : m (List Inline) :=
  doc.collectInlines (keepIf p)

end MarkdownTree
