/-!
Documents as trees of two levels. Blocks nest through lists and quotes; paragraphs and headings
carry inlines; inlines nest through spans. Each level separates its leaves from its containers, so
that an operation over the tree treats a leaf in one case, whatever its kind.
-/

namespace MarkdownTree

/-! ### Inlines -/

/-- Where a link or an image points. -/
structure Target where
  title : Option String := none
  url : Option String := none
  deriving DecidableEq, Repr

/-- An inline without children. A soft break is a line ending inside a paragraph, a line break is a
hard one; an html inline is a single tag; the literal of a custom inline is opaque. -/
inductive LeafInline where
  | text (literal : String)
  | softBreak
  | lineBreak
  | code (literal : String)
  | html (literal : String)
  | custom (literal : String)
  deriving DecidableEq, Repr

/-- What an inline with children is, the children aside. The children of an image are its
alternative text. -/
inductive Span where
  | emphasis
  | strong
  | link (target : Target)
  | image (target : Target)
  deriving DecidableEq, Repr

/-- The text flow of a paragraph or heading is a list of inlines. -/
inductive Inline where
  | leaf (node : LeafInline)
  | span (kind : Span) (children : List Inline)

namespace Inline

@[match_pattern] abbrev text (literal : String) : Inline := .leaf (.text literal)
@[match_pattern] abbrev softBreak : Inline := .leaf .softBreak
@[match_pattern] abbrev lineBreak : Inline := .leaf .lineBreak
@[match_pattern] abbrev code (literal : String) : Inline := .leaf (.code literal)
@[match_pattern] abbrev html (literal : String) : Inline := .leaf (.html literal)
@[match_pattern] abbrev custom (literal : String) : Inline := .leaf (.custom literal)

/-- A link without a title. -/
def link (children : List Inline) (url : String) : Inline := .span (.link ⟨none, some url⟩) children

/-- An image without a title. -/
def image (alt : List Inline) (url : String) : Inline := .span (.image ⟨none, some url⟩) alt

instance : Inhabited Inline := ⟨softBreak⟩

end Inline

/-! ### Blocks -/

/-- Whether a list is bulleted or numbered. -/
inductive ListType where
  | unordered
  | ordered
  deriving DecidableEq, Repr

/-- A block with neither blocks nor inlines in it. The language of a code block is the whole info
string; an html block holds its tags; the literal of a custom block is opaque. -/
inductive LeafBlock where
  | codeBlock (text : String) (language : Option String)
  | html (literal : String)
  | custom (literal : String)
  | thematicBreak
  deriving DecidableEq, Repr

/-- What a block that carries inlines is, its text aside. Any level is a tree, not only the six
that Markdown can spell. -/
inductive Carrier where
  | paragraph
  | heading (level : UInt8)
  deriving DecidableEq, Repr

/-- The items of a list are lists of blocks, never flattened into each other. -/
inductive Block where
  | leaf (node : LeafBlock)
  | carrier (kind : Carrier) (text : List Inline)
  | list (type : ListType) (items : List (List Block))
  | quote (blocks : List Block)

namespace Block

@[match_pattern] abbrev codeBlock (text : String) (language : Option String) : Block :=
  .leaf (.codeBlock text language)
@[match_pattern] abbrev html (literal : String) : Block := .leaf (.html literal)
@[match_pattern] abbrev custom (literal : String) : Block := .leaf (.custom literal)
@[match_pattern] abbrev thematicBreak : Block := .leaf .thematicBreak
@[match_pattern] abbrev paragraph (text : List Inline) : Block := .carrier .paragraph text
@[match_pattern] abbrev heading (level : UInt8) (text : List Inline) : Block :=
  .carrier (.heading level) text

instance : Inhabited Block := ⟨thematicBreak⟩

end Block

/-- A document is its top-level blocks. -/
abbrev Document := List Block

/-! ### Equality -/

mutual

/-- Equality of inlines, by their kinds and data and then child by child. -/
def Inline.decEq : (a b : Inline) → Decidable (a = b)
  | .leaf a, .leaf b =>
    if h : a = b then .isTrue (h ▸ rfl) else .isFalse fun e => h (Inline.leaf.inj e)
  | .span s xs, .span t ys =>
    if h : s = t then
      match Inline.decEqAll xs ys with
      | .isTrue h' => .isTrue (h ▸ h' ▸ rfl)
      | .isFalse h' => .isFalse fun e => h' (Inline.span.inj e).2
    else .isFalse fun e => h (Inline.span.inj e).1
  | .leaf _, .span _ _ => .isFalse nofun
  | .span _ _, .leaf _ => .isFalse nofun

/-- Equality of lists of inlines. -/
def Inline.decEqAll : (xs ys : List Inline) → Decidable (xs = ys)
  | [], [] => .isTrue rfl
  | x :: xs, y :: ys =>
    match Inline.decEq x y, Inline.decEqAll xs ys with
    | .isTrue h, .isTrue h' => .isTrue (h ▸ h' ▸ rfl)
    | .isFalse h, _ => .isFalse fun e => h (List.cons.inj e).1
    | _, .isFalse h' => .isFalse fun e => h' (List.cons.inj e).2
  | [], _ :: _ => .isFalse nofun
  | _ :: _, [] => .isFalse nofun

end

instance : DecidableEq Inline := Inline.decEq

mutual

/-- Equality of blocks, by their kinds and data and then part by part. -/
def Block.decEq : (a b : Block) → Decidable (a = b)
  | .leaf a, .leaf b =>
    if h : a = b then .isTrue (h ▸ rfl) else .isFalse fun e => h (Block.leaf.inj e)
  | .carrier c xs, .carrier d ys =>
    if h : c = d ∧ xs = ys then .isTrue (h.1 ▸ h.2 ▸ rfl)
    else .isFalse fun e => h (Block.carrier.inj e)
  | .list s xs, .list t ys =>
    if h : s = t then
      match Block.decEqItems xs ys with
      | .isTrue h' => .isTrue (h ▸ h' ▸ rfl)
      | .isFalse h' => .isFalse fun e => h' (Block.list.inj e).2
    else .isFalse fun e => h (Block.list.inj e).1
  | .quote xs, .quote ys =>
    match Block.decEqAll xs ys with
    | .isTrue h => .isTrue (h ▸ rfl)
    | .isFalse h => .isFalse fun e => h (Block.quote.inj e)
  | .leaf _, .carrier .. | .leaf _, .list .. | .leaf _, .quote _ => .isFalse nofun
  | .carrier .., .leaf _ | .carrier .., .list .. | .carrier .., .quote _ => .isFalse nofun
  | .list .., .leaf _ | .list .., .carrier .. | .list .., .quote _ => .isFalse nofun
  | .quote _, .leaf _ | .quote _, .carrier .. | .quote _, .list .. => .isFalse nofun

/-- Equality of lists of blocks. -/
def Block.decEqAll : (xs ys : List Block) → Decidable (xs = ys)
  | [], [] => .isTrue rfl
  | x :: xs, y :: ys =>
    match Block.decEq x y, Block.decEqAll xs ys with
    | .isTrue h, .isTrue h' => .isTrue (h ▸ h' ▸ rfl)
    | .isFalse h, _ => .isFalse fun e => h (List.cons.inj e).1
    | _, .isFalse h' => .isFalse fun e => h' (List.cons.inj e).2
  | [], _ :: _ => .isFalse nofun
  | _ :: _, [] => .isFalse nofun

/-- Equality of lists of items. -/
def Block.decEqItems : (xs ys : List (List Block)) → Decidable (xs = ys)
  | [], [] => .isTrue rfl
  | x :: xs, y :: ys =>
    match Block.decEqAll x y, Block.decEqItems xs ys with
    | .isTrue h, .isTrue h' => .isTrue (h ▸ h' ▸ rfl)
    | .isFalse h, _ => .isFalse fun e => h (List.cons.inj e).1
    | _, .isFalse h' => .isFalse fun e => h' (List.cons.inj e).2
  | [], _ :: _ => .isFalse nofun
  | _ :: _, [] => .isFalse nofun

end

instance : DecidableEq Block := Block.decEq

end MarkdownTree
