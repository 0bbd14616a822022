import MarkdownTree.Tree

/-!
Replacing the nodes of a tree: a function gives, for every node, the list of nodes that take its
place. Walks are depth first and left to right, and a container is rebuilt around its new content
before the function is called on it, so the function is called once for each node of the given tree
and never on a node that it made itself.

The function runs in any monad. In `Id` it is pure; in `ExceptT ε (StateM σ)` its first error ends
the walk, no later node is visited, and the state of that moment survives.
-/

namespace MarkdownTree

variable {m : Type → Type} [Monad m]

/-! ### Inlines -/

mutual

/-- Replaces an inline after its descendants; a span keeps its kind, title and url. -/
def Inline.replace (f : Inline → m (List Inline)) : Inline → m (List Inline)
  | .leaf node => f (.leaf node)
  | .span kind children => do
    let children ← Inline.replaceAll f children
    f (.span kind children)

/-- Replaces inlines in order and joins what takes their places. -/
def Inline.replaceAll (f : Inline → m (List Inline)) : List Inline → m (List Inline)
  | [] => pure []
  | x :: xs => do
    let ys ← Inline.replace f x
    let zs ← Inline.replaceAll f xs
    pure (ys ++ zs)

end

/-! ### Blocks -/

mutual

/-- Replaces a block after the blocks in it. A carrier is handed over with its text as it is. -/
def Block.replace (f : Block → m (List Block)) : Block → m (List Block)
  | .leaf node => f (.leaf node)
  | .carrier kind text => f (.carrier kind text)
  | .list type items => do
    let items ← Block.replaceItems f items
    f (.list type items)
  | .quote blocks => do
    let blocks ← Block.replaceAll f blocks
    f (.quote blocks)

/-- Replaces blocks in order and joins what takes their places. -/
def Block.replaceAll (f : Block → m (List Block)) : List Block → m (List Block)
  | [] => pure []
  | b :: bs => do
    let cs ← Block.replace f b
    let ds ← Block.replaceAll f bs
    pure (cs ++ ds)

/-- Replaces the blocks of each item, item by item; an item may become empty but stays an item. -/
def Block.replaceItems (f : Block → m (List Block)) : List (List Block) → m (List (List Block))
  | [] => pure []
  | item :: items => do
    let item ← Block.replaceAll f item
    let items ← Block.replaceItems f items
    pure (item :: items)

end

/-! ### Texts -/

mutual

/-- Replaces the text of every paragraph and heading of a block; all else stays as it is. -/
def Block.mapTexts (g : List Inline → m (List Inline)) : Block → m Block
  | .leaf node => pure (.leaf node)
  | .carrier kind text => do
    let text ← g text
    pure (.carrier kind text)
  | .list type items => do
    let items ← Block.mapTextsItems g items
    pure (.list type items)
  | .quote blocks => do
    let blocks ← Block.mapTextsAll g blocks
    pure (.quote blocks)

/-- Replaces the texts of blocks in order, one block for each. -/
def Block.mapTextsAll (g : List Inline → m (List Inline)) : List Block → m (List Block)
  | [] => pure []
  | b :: bs => do
    let b ← Block.mapTexts g b
    let bs ← Block.mapTextsAll g bs
    pure (b :: bs)

/-- Replaces the texts of each item in order. -/
def Block.mapTextsItems (g : List Inline → m (List Inline)) :
    List (List Block) → m (List (List Block))
  | [] => pure []
  | item :: items => do
    let item ← Block.mapTextsAll g item
    let items ← Block.mapTextsItems g items
    pure (item :: items)

end

/-! ### Documents -/

/-- Replaces every block of a document, at every depth, by what `f` gives for it: nothing deletes
it, one block keeps or changes it, several split it. Inlines are not visited. -/
def Document.replaceBlocks (f : Block → m (List Block)) (doc : Document) : m Document :=
  Block.replaceAll f doc

/-- Replaces every inline of a document, at every depth, by what `f` gives for it. No block comes or
goes. -/
def Document.replaceInlines (f : Inline → m (List Inline)) (doc : Document) : m Document :=
  Block.mapTextsAll (Inline.replaceAll f) doc

end MarkdownTree
