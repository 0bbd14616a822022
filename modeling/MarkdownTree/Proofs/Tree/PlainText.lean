import MarkdownTree.Tree

/-!
The plain text of a document: the texts in it from left to right, without what is around them. An image
has none, whatever its alternative text, and a hard break or a thematic break has none either.
-/

namespace MarkdownTree

/-! ### Inlines -/

def LeafInline.plainText : LeafInline → String
  | .text literal | .code literal | .html literal | .custom literal => literal
  | .softBreak => "\n"
  | .lineBreak => ""

mutual

def Inline.plainText : Inline → String
  | .leaf node => node.plainText
  | .span (.image _) _ => ""
  | .span .emphasis children | .span .strong children | .span (.link _) children =>
    Inline.plainTextAll children

/-- The plain text of inlines in order. -/
def Inline.plainTextAll : List Inline → String
  | [] => ""
  | x :: xs => Inline.plainText x ++ Inline.plainTextAll xs

end

/-! ### Blocks -/

def LeafBlock.plainText : LeafBlock → String
  | .codeBlock text _ => text
  | .html literal | .custom literal => literal
  | .thematicBreak => ""

mutual

def Block.plainText : Block → String
  | .leaf node => node.plainText
  | .carrier _ text => Inline.plainTextAll text
  | .list _ items => Block.plainTextItems items
  | .quote blocks => Block.plainTextAll blocks

/-- The plain text of blocks in order. -/
def Block.plainTextAll : List Block → String
  | [] => ""
  | b :: bs => Block.plainText b ++ Block.plainTextAll bs

/-- The plain text of items in order. -/
def Block.plainTextItems : List (List Block) → String
  | [] => ""
  | item :: items => Block.plainTextAll item ++ Block.plainTextItems items

end

def Document.plainText (doc : Document) : String := Block.plainTextAll doc

/-! ### Concatenation -/

theorem Inline.plainTextAll_append (xs ys : List Inline) :
    plainTextAll (xs ++ ys) = plainTextAll xs ++ plainTextAll ys := by
  induction xs with
  | nil => rw [List.nil_append, plainTextAll, String.empty_append]
  | cons x xs ih => rw [List.cons_append, plainTextAll, ih, plainTextAll, String.append_assoc]

theorem Inline.plainTextAll_singleton (x : Inline) : plainTextAll [x] = x.plainText := by
  rw [plainTextAll, plainTextAll, String.append_empty]

theorem Block.plainTextAll_append (bs cs : List Block) :
    plainTextAll (bs ++ cs) = plainTextAll bs ++ plainTextAll cs := by
  induction bs with
  | nil => rw [List.nil_append, plainTextAll, String.empty_append]
  | cons b bs ih => rw [List.cons_append, plainTextAll, ih, plainTextAll, String.append_assoc]

theorem Block.plainTextAll_singleton (b : Block) : plainTextAll [b] = b.plainText := by
  rw [plainTextAll, plainTextAll, String.append_empty]

end MarkdownTree
