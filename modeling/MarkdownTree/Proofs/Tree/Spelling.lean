import MarkdownTree.Proofs.Json.Grammar
import MarkdownTree.Tree.Json

/-!
What a JSON value spells: the grammar of the JSON form of trees, by recursion on the tree. Every tree has
many spellings, as a kind without data may have the payload `null`, an object may leave out what is null
or have more members, and a record may be an array.
-/

namespace MarkdownTree

open Json

/-! ### The grammar -/

def ListType.SpelledBy : ListType → Json → Prop
  | .unordered => Bare "unordered"
  | .ordered => Bare "ordered"

def LeafInline.SpelledBy : LeafInline → Json → Prop
  | .text literal => Tagged "text" (Literal literal)
  | .softBreak => Bare "soft_break"
  | .lineBreak => Bare "line_break"
  | .code literal => Tagged "code" (Literal literal)
  | .html literal => Tagged "html" (Literal literal)
  | .custom literal => Tagged "custom" (Literal literal)

/-- The fields of a link or image, in order. -/
def Target.fields (Children : Json → Prop) (target : Target) : List Field :=
  [.required "children" Children, .nullable "title" target.title, .nullable "url" target.url]

def Span.SpelledBy (Children : Json → Prop) : Span → Json → Prop
  | .emphasis => Tagged "emphasis" Children
  | .strong => Tagged "strong" Children
  | .link target => Tagged "link" (RecordOf (target.fields Children))
  | .image target => Tagged "image" (RecordOf (target.fields Children))

mutual

def Inline.SpelledBy : Inline → Json → Prop
  | .leaf node => node.SpelledBy
  | .span kind children => kind.SpelledBy (ArrayOf (Inline.AllSpelledBy children))

/-- Values in order that spell inlines. -/
def Inline.AllSpelledBy : List Inline → List Json → Prop
  | [], values => values = []
  | x :: xs, values => ∃ first rest, values = first :: rest ∧ Inline.SpelledBy x first ∧
      Inline.AllSpelledBy xs rest

end

/-- An array that spells inlines. -/
def Inline.ListSpelledBy (xs : List Inline) : Json → Prop := ArrayOf (Inline.AllSpelledBy xs)

def LeafBlock.SpelledBy : LeafBlock → Json → Prop
  | .codeBlock text language => Tagged "code_block"
      (RecordOf [.required "text" (Literal text), .nullable "language" language])
  | .html literal => Tagged "html" (Literal literal)
  | .custom literal => Tagged "custom" (Literal literal)
  | .thematicBreak => Bare "thematic_break"

def Carrier.SpelledBy (Text : Json → Prop) : Carrier → Json → Prop
  | .paragraph => Tagged "paragraph" (RecordOf [.required "text" Text])
  | .heading level => Tagged "heading"
      (RecordOf [.required "text" Text, .required "level" (Byte level)])

mutual

def Block.SpelledBy : Block → Json → Prop
  | .leaf node => node.SpelledBy
  | .carrier kind text => kind.SpelledBy (Inline.ListSpelledBy text)
  | .list type items => Tagged "list" (RecordOf
      [.required "items" (ArrayOf (Block.ItemsSpelledBy items)),
        .required "list_type" type.SpelledBy])
  | .quote blocks => Tagged "block_quote" (RecordOf
      [.required "items" (ArrayOf (Block.AllSpelledBy blocks))])

/-- Values in order that spell blocks. -/
def Block.AllSpelledBy : List Block → List Json → Prop
  | [], values => values = []
  | b :: bs, values => ∃ first rest, values = first :: rest ∧ Block.SpelledBy b first ∧
      Block.AllSpelledBy bs rest

/-- Values in order that spell items, an array each. -/
def Block.ItemsSpelledBy : List (List Block) → List Json → Prop
  | [], values => values = []
  | item :: items, values => ∃ first rest, values = first :: rest ∧
      ArrayOf (Block.AllSpelledBy item) first ∧ Block.ItemsSpelledBy items rest

end

/-- A document is spelled by an array of its blocks. -/
def Document.SpelledBy (doc : Document) : Json → Prop := ArrayOf (Block.AllSpelledBy doc)

end MarkdownTree
