import MarkdownTree.Json
import MarkdownTree.Tree

/-!
The JSON form of trees. A node with data is an object with one member, named for the kind of the
node; a node without data is the name alone. Writing has one form for each tree. Reading takes more:
a kind without data may have the payload `null`, a record may leave out its nullable fields and have
others besides, and a record may be an array of all its fields in order.
-/

namespace MarkdownTree

open Json (required? optional?)

/-! ### Writing -/

def ListType.toJson : ListType → Json
  | .unordered => .string "unordered"
  | .ordered => .string "ordered"

def LeafInline.toJson : LeafInline → Json
  | .text literal => .object [("text", .string literal)]
  | .softBreak => .string "soft_break"
  | .lineBreak => .string "line_break"
  | .code literal => .object [("code", .string literal)]
  | .html literal => .object [("html", .string literal)]
  | .custom literal => .object [("custom", .string literal)]

/-- The record of a link or image. -/
def Target.toJson (target : Target) (children : Json) : Json :=
  .object [("children", children), ("title", .textOrNull target.title),
    ("url", .textOrNull target.url)]

def Span.toJson (children : Json) : Span → Json
  | .emphasis => .object [("emphasis", children)]
  | .strong => .object [("strong", children)]
  | .link target => .object [("link", target.toJson children)]
  | .image target => .object [("image", target.toJson children)]

mutual

def Inline.toJson : Inline → Json
  | .leaf node => node.toJson
  | .span kind children => kind.toJson (.array (Inline.toJsonAll children))

/-- The JSON forms of inlines in order. -/
def Inline.toJsonAll : List Inline → List Json
  | [] => []
  | x :: xs => Inline.toJson x :: Inline.toJsonAll xs

end

def LeafBlock.toJson : LeafBlock → Json
  | .codeBlock text language =>
    .object [("code_block", .object [("text", .string text), ("language", .textOrNull language)])]
  | .html literal => .object [("html", .string literal)]
  | .custom literal => .object [("custom", .string literal)]
  | .thematicBreak => .string "thematic_break"

def Carrier.toJson (text : Json) : Carrier → Json
  | .paragraph => .object [("paragraph", .object [("text", text)])]
  | .heading level =>
    .object [("heading", .object [("text", text), ("level", .int level.toNat)])]

mutual

def Block.toJson : Block → Json
  | .leaf node => node.toJson
  | .carrier kind text => kind.toJson (.array (Inline.toJsonAll text))
  | .list type items =>
    .object [("list",
      .object [("items", .array (Block.toJsonItems items)), ("list_type", type.toJson)])]
  | .quote blocks =>
    .object [("block_quote", .object [("items", .array (Block.toJsonAll blocks))])]

/-- The JSON forms of blocks in order. -/
def Block.toJsonAll : List Block → List Json
  | [] => []
  | b :: bs => Block.toJson b :: Block.toJsonAll bs

/-- The JSON forms of items in order, an array each. -/
def Block.toJsonItems : List (List Block) → List Json
  | [] => []
  | item :: items => .array (Block.toJsonAll item) :: Block.toJsonItems items

end

def Document.toJson (doc : Document) : Json := .array (Block.toJsonAll doc)

/-! ### Reading list types and leaves -/

def ListType.ofName? : String → Option ListType
  | "unordered" => some .unordered
  | "ordered" => some .ordered
  | _ => none

def ListType.ofJson? : Json → Option ListType
  | .string name => ListType.ofName? name
  | .object [(name, .null)] => ListType.ofName? name
  | _ => none

/-- The kinds of leaf inline without data. -/
def LeafInline.ofName? : String → Option LeafInline
  | "soft_break" => some .softBreak
  | "line_break" => some .lineBreak
  | _ => none

/-- A leaf inline from its name and payload. -/
def LeafInline.ofMember? (name : String) (payload : Json) : Option LeafInline :=
  match name, payload with
  | "text", .string literal => some (.text literal)
  | "code", .string literal => some (.code literal)
  | "html", .string literal => some (.html literal)
  | "custom", .string literal => some (.custom literal)
  | _, .null => LeafInline.ofName? name
  | _, _ => none

/-- The kinds of leaf block without data. -/
def LeafBlock.ofName? : String → Option LeafBlock
  | "thematic_break" => some .thematicBreak
  | _ => none

/-- The record of a code block: its text, then its language. -/
def LeafBlock.ofCodeBlock? : Json → Option LeafBlock
  | .object members => do
    let text ← required? Json.string? "text" members
    let language ← optional? Json.string? "language" members
    some (.codeBlock text language)
  | .array [text, language] => do
    let text ← text.string?
    let language ← language.nullable? Json.string?
    some (.codeBlock text language)
  | _ => none

/-- A leaf block from its name and payload. -/
def LeafBlock.ofMember? (name : String) (payload : Json) : Option LeafBlock :=
  match name, payload with
  | "code_block", payload => LeafBlock.ofCodeBlock? payload
  | "html", .string literal => some (.html literal)
  | "custom", .string literal => some (.custom literal)
  | _, .null => LeafBlock.ofName? name
  | _, _ => none

/-! ### Reading inlines -/

mutual

def Inline.ofJson? : Json → Option Inline
  | .string name => (LeafInline.ofName? name).map .leaf
  | .object [(name, payload)] =>
    match name with
    | "emphasis" => (Inline.listOfJson? payload).map (.span .emphasis)
    | "strong" => (Inline.listOfJson? payload).map (.span .strong)
    | "link" => (Inline.ofLinked? payload).map fun (children, target) => .span (.link target) children
    | "image" => (Inline.ofLinked? payload).map fun (children, target) => .span (.image target) children
    | name => (LeafInline.ofMember? name payload).map .leaf
  | _ => none

/-- An array of inlines. -/
def Inline.listOfJson? : Json → Option (List Inline)
  | .array elements => Inline.allOfJson? elements
  | _ => none

/-- Inlines in order. -/
def Inline.allOfJson? : List Json → Option (List Inline)
  | [] => some []
  | x :: xs => do
    let y ← Inline.ofJson? x
    let ys ← Inline.allOfJson? xs
    some (y :: ys)

/-- The record of a link or image: its children, then its title and its url. -/
def Inline.ofLinked? : Json → Option (List Inline × Target)
  | .object members => do
    let children ← Inline.memberOfJson? "children" members
    let title ← optional? Json.string? "title" members
    let url ← optional? Json.string? "url" members
    some (children, ⟨title, url⟩)
  | .array [children, title, url] => do
    let children ← Inline.listOfJson? children
    let title ← title.nullable? Json.string?
    let url ← url.nullable? Json.string?
    some (children, ⟨title, url⟩)
  | _ => none

/-- The member of a given name, an array of inlines. -/
def Inline.memberOfJson? (name : String) : List (String × Json) → Option (List Inline)
  | [] => none
  | (key, value) :: members =>
    if key = name then Inline.listOfJson? value else Inline.memberOfJson? name members

end

/-! ### Reading blocks -/

/-- The record of a paragraph: its text. -/
def Block.ofParagraph? : Json → Option Block
  | .object members => (required? Inline.listOfJson? "text" members).map .paragraph
  | .array [text] => (Inline.listOfJson? text).map .paragraph
  | _ => none

/-- The record of a heading: its text, then its level. -/
def Block.ofHeading? : Json → Option Block
  | .object members => do
    let text ← required? Inline.listOfJson? "text" members
    let level ← required? Json.byte? "level" members
    some (.heading level text)
  | .array [text, level] => do
    let text ← Inline.listOfJson? text
    let level ← level.byte?
    some (.heading level text)
  | _ => none

mutual

def Block.ofJson? : Json → Option Block
  | .string name => (LeafBlock.ofName? name).map .leaf
  | .object [(name, payload)] =>
    match name with
    | "list" => Block.ofList? payload
    | "block_quote" => Block.ofQuote? payload
    | "paragraph" => Block.ofParagraph? payload
    | "heading" => Block.ofHeading? payload
    | name => (LeafBlock.ofMember? name payload).map .leaf
  | _ => none

/-- An array of blocks. -/
def Block.listOfJson? : Json → Option (List Block)
  | .array elements => Block.allOfJson? elements
  | _ => none

/-- Blocks in order. -/
def Block.allOfJson? : List Json → Option (List Block)
  | [] => some []
  | x :: xs => do
    let b ← Block.ofJson? x
    let bs ← Block.allOfJson? xs
    some (b :: bs)

/-- An array of items. -/
def Block.itemsOfJson? : Json → Option (List (List Block))
  | .array elements => Block.allItemsOfJson? elements
  | _ => none

/-- Items in order, an array of blocks each. -/
def Block.allItemsOfJson? : List Json → Option (List (List Block))
  | [] => some []
  | x :: xs => do
    let item ← Block.listOfJson? x
    let items ← Block.allItemsOfJson? xs
    some (item :: items)

/-- The record of a list: its items, then its type. -/
def Block.ofList? : Json → Option Block
  | .object members => do
    let items ← Block.itemsMemberOfJson? members
    let type ← required? ListType.ofJson? "list_type" members
    some (.list type items)
  | .array [items, type] => do
    let items ← Block.itemsOfJson? items
    let type ← ListType.ofJson? type
    some (.list type items)
  | _ => none

/-- The record of a quote: its blocks. -/
def Block.ofQuote? : Json → Option Block
  | .object members => (Block.blocksMemberOfJson? members).map .quote
  | .array [blocks] => (Block.listOfJson? blocks).map .quote
  | _ => none

/-- The items of the record of a list. -/
def Block.itemsMemberOfJson? : List (String × Json) → Option (List (List Block))
  | [] => none
  | (key, value) :: members =>
    if key = "items" then Block.itemsOfJson? value else Block.itemsMemberOfJson? members

/-- The blocks of the record of a quote. -/
def Block.blocksMemberOfJson? : List (String × Json) → Option (List Block)
  | [] => none
  | (key, value) :: members =>
    if key = "items" then Block.listOfJson? value else Block.blocksMemberOfJson? members

end

def Document.ofJson? (value : Json) : Option Document := Block.listOfJson? value

end MarkdownTree
