import MarkdownTree.Gather
import MarkdownTree.Tree

/-!
Folding a document into one value, by an algebra with an optional function for each kind of node. A
function gets the values of the node's children, which are folded before it in order, and the data
of the node. Where there is no function the value is the default of the algebra, and the children
are folded all the same.

The functions run in any monad, as for a replacing.
-/

namespace MarkdownTree

variable {m : Type → Type} {R : Type}

/-! ### Algebras -/

/-- An optional function for each kind of inline. -/
structure InlineAlgebra (m : Type → Type) (R : Type) where
  text : Option (String → m R) := none
  softBreak : Option (m R) := none
  lineBreak : Option (m R) := none
  code : Option (String → m R) := none
  html : Option (String → m R) := none
  custom : Option (String → m R) := none
  emphasis : Option (List R → m R) := none
  strong : Option (List R → m R) := none
  link : Option (List R → Target → m R) := none
  image : Option (List R → Target → m R) := none

/-- A default value, and an optional function for each kind of node. A list is folded in two steps,
each item by `listItem` and then the items by `list`; the whole document is folded by `document`. -/
structure Algebra (m : Type → Type) (R : Type) where
  defaultValue : R
  inline : InlineAlgebra m R := {}
  list : Option (List R → ListType → m R) := none
  listItem : Option (List R → m R) := none
  quote : Option (List R → m R) := none
  codeBlock : Option (String → Option String → m R) := none
  html : Option (String → m R) := none
  paragraph : Option (List R → m R) := none
  heading : Option (List R → UInt8 → m R) := none
  custom : Option (String → m R) := none
  thematicBreak : Option (m R) := none
  document : Option (List R → m R) := none

/-- The function for a leaf inline, applied to its data. -/
def InlineAlgebra.leaf (A : InlineAlgebra m R) : LeafInline → Option (m R)
  | .text literal => A.text.map (· literal)
  | .softBreak => A.softBreak
  | .lineBreak => A.lineBreak
  | .code literal => A.code.map (· literal)
  | .html literal => A.html.map (· literal)
  | .custom literal => A.custom.map (· literal)

/-- The function for a span, applied to the values of its children and its data. -/
def InlineAlgebra.span (A : InlineAlgebra m R) (children : List R) : Span → Option (m R)
  | .emphasis => A.emphasis.map (· children)
  | .strong => A.strong.map (· children)
  | .link target => A.link.map (· children target)
  | .image target => A.image.map (· children target)

namespace Algebra

/-- The function for a leaf block, applied to its data. -/
def leaf (A : Algebra m R) : LeafBlock → Option (m R)
  | .codeBlock text language => A.codeBlock.map (· text language)
  | .html literal => A.html.map (· literal)
  | .custom literal => A.custom.map (· literal)
  | .thematicBreak => A.thematicBreak

/-- The function for a carrier, applied to the values of its text and its data. -/
def carrier (A : Algebra m R) (children : List R) : Carrier → Option (m R)
  | .paragraph => A.paragraph.map (· children)
  | .heading level => A.heading.map (· children level)

variable [Monad m]

/-- What a function gives, or the default value where there is none. -/
def orDefault (A : Algebra m R) (result : Option (m R)) : m R :=
  result.getD (pure A.defaultValue)

/-- The algebra that gathers the values of all children. Alone it gives the empty value everywhere;
functions set over it pick out what to gather. -/
def collecting [Gather R] : Algebra m R where
  defaultValue := Gather.empty
  list := some fun children _ => pure (Gather.concat children)
  listItem := some fun children => pure (Gather.concat children)
  quote := some fun children => pure (Gather.concat children)
  paragraph := some fun children => pure (Gather.concat children)
  heading := some fun children _ => pure (Gather.concat children)
  document := some fun children => pure (Gather.concat children)
  inline := {
    emphasis := some fun children => pure (Gather.concat children)
    strong := some fun children => pure (Gather.concat children)
    link := some fun children _ => pure (Gather.concat children)
    image := some fun children _ => pure (Gather.concat children)
  }

end Algebra

variable [Monad m]

/-! ### Folding inlines -/

mutual

def Inline.fold (A : Algebra m R) : Inline → m R
  | .leaf node => A.orDefault (A.inline.leaf node)
  | .span kind children => do
    let children ← Inline.foldAll A children
    A.orDefault (A.inline.span children kind)

/-- The values of inlines in order. -/
def Inline.foldAll (A : Algebra m R) : List Inline → m (List R)
  | [] => pure []
  | x :: xs => do
    let value ← Inline.fold A x
    let values ← Inline.foldAll A xs
    pure (value :: values)

end

/-! ### Folding blocks -/

mutual

def Block.fold (A : Algebra m R) : Block → m R
  | .leaf node => A.orDefault (A.leaf node)
  | .carrier kind text => do
    let children ← Inline.foldAll A text
    A.orDefault (A.carrier children kind)
  | .list type items => do
    let items ← Block.foldItems A items
    A.orDefault (A.list.map (· items type))
  | .quote blocks => do
    let children ← Block.foldAll A blocks
    A.orDefault (A.quote.map (· children))

/-- The values of blocks in order. -/
def Block.foldAll (A : Algebra m R) : List Block → m (List R)
  | [] => pure []
  | b :: bs => do
    let value ← Block.fold A b
    let values ← Block.foldAll A bs
    pure (value :: values)

/-- The values of items in order, each the value of its blocks together. -/
def Block.foldItems (A : Algebra m R) : List (List Block) → m (List R)
  | [] => pure []
  | item :: items => do
    let children ← Block.foldAll A item
    let value ← A.orDefault (A.listItem.map (· children))
    let values ← Block.foldItems A items
    pure (value :: values)

end

/-- The value of a whole document. -/
def Document.fold (A : Algebra m R) (doc : Document) : m R := do
  let children ← Block.foldAll A doc
  A.orDefault (A.document.map (· children))

end MarkdownTree
