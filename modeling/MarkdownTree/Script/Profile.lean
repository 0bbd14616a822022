import MarkdownTree.Tree

/-!
What a rule can see of a node: its kind and what data it has, in one record for blocks and inlines
alike. The description of a node is one line of text made from that record.
-/

namespace MarkdownTree

/-! ### Profiles -/

/-- The name of a list type. -/
def ListType.name : ListType → String
  | .unordered => "unordered"
  | .ordered => "ordered"

/-- The kind of a node and the data that nodes of its kind have. The count is the number of direct
parts: items of a list, blocks of a quote, inlines of a text, children of a span. -/
structure Profile where
  kind : String
  count : Option Nat := none
  literal : Option String := none
  language : Option String := none
  level : Option UInt8 := none
  listType : Option ListType := none
  target : Option Target := none

namespace Profile

/-- The title, if there is a target that has one. -/
def title (p : Profile) : Option String := p.target.bind (·.title)

/-- The url, if there is a target that has one. -/
def url (p : Profile) : Option String := p.target.bind (·.url)

/-- Neither parts nor a literal of any length. -/
def isEmpty (p : Profile) : Bool := p.count.getD 0 == 0 && p.literal.getD "" == ""

/-- The kind, with the level of a heading or the type of a list, then the count after a slash, then
the literal after a colon. -/
def describe (p : Profile) : String :=
  p.kind ++ (p.level.elim "" fun level => toString level.toNat)
    ++ (p.listType.elim "" fun type => "." ++ type.name)
    ++ (p.count.elim "" fun count => "/" ++ toString count)
    ++ (p.literal.elim "" fun literal => ":" ++ literal)

end Profile

def LeafInline.profile : LeafInline → Profile
  | .text literal => { kind := "text", literal }
  | .softBreak => { kind := "soft_break" }
  | .lineBreak => { kind := "line_break" }
  | .code literal => { kind := "code", literal }
  | .html literal => { kind := "html", literal }
  | .custom literal => { kind := "custom", literal }

/-- The profile of a span with a given number of children. -/
def Span.profile (count : Nat) : Span → Profile
  | .emphasis => { kind := "emphasis", count }
  | .strong => { kind := "strong", count }
  | .link target => { kind := "link", count, target }
  | .image target => { kind := "image", count, target }

def Inline.profile : Inline → Profile
  | .leaf node => node.profile
  | .span kind children => kind.profile children.length

def LeafBlock.profile : LeafBlock → Profile
  | .codeBlock literal language => { kind := "code_block", literal, language }
  | .html literal => { kind := "html", literal }
  | .custom literal => { kind := "custom", literal }
  | .thematicBreak => { kind := "thematic_break" }

/-- The profile of a carrier with a given number of inlines. -/
def Carrier.profile (count : Nat) : Carrier → Profile
  | .paragraph => { kind := "paragraph", count }
  | .heading level => { kind := "heading", count, level }

def Block.profile : Block → Profile
  | .leaf node => node.profile
  | .carrier kind text => kind.profile text.length
  | .list listType items => { kind := "list", count := items.length, listType }
  | .quote blocks => { kind := "block_quote", count := blocks.length }

/-! ### Changes to one node -/

/-- Every literal of a leaf changed by `f`; a leaf without one stays. -/
def LeafInline.mapLiteral (f : String → String) : LeafInline → LeafInline
  | .text literal => .text (f literal)
  | .softBreak => .softBreak
  | .lineBreak => .lineBreak
  | .code literal => .code (f literal)
  | .html literal => .html (f literal)
  | .custom literal => .custom (f literal)

/-- The text or literal of a leaf changed by `f`; a leaf without one stays. -/
def LeafBlock.mapLiteral (f : String → String) : LeafBlock → LeafBlock
  | .codeBlock text language => .codeBlock (f text) language
  | .html literal => .html (f literal)
  | .custom literal => .custom (f literal)
  | .thematicBreak => .thematicBreak

/-- The url changed by `f`, if there is one. -/
def Target.mapUrl (f : String → String) (target : Target) : Target :=
  { target with url := target.url.map f }

/-- The changes to one node that a rule can ask for, its descendants left alone. -/
class Editable (N : Type) where
  profile : N → Profile
  /-- A custom node. -/
  custom : String → N
  /-- The parts of a container, in order; another node as it is. -/
  unwrap : N → List N
  /-- The node in a container of the named kind. -/
  wrap : String → N → N
  mapLiteral : (String → String) → N → N
  /-- A heading at the level that `f` gives; another node as it is. -/
  mapLevel : (UInt8 → UInt8) → N → N
  /-- A link or image with its url changed; another node as it is. -/
  mapUrl : (String → String) → N → N

instance : Editable Inline where
  profile := Inline.profile
  custom := .custom
  unwrap
    | .leaf node => [.leaf node]
    | .span _ children => children
  wrap name x :=
    match name with
    | "emphasis" => .span .emphasis [x]
    | "strong" => .span .strong [x]
    | url => .link [x] url
  mapLiteral f
    | .leaf node => .leaf (node.mapLiteral f)
    | .span kind children => .span kind children
  mapLevel _ x := x
  mapUrl f
    | .span (.link target) children => .span (.link (target.mapUrl f)) children
    | .span (.image target) children => .span (.image (target.mapUrl f)) children
    | x => x

instance : Editable Block where
  profile := Block.profile
  custom := .custom
  unwrap
    | .list _ items => items.flatten
    | .quote blocks => blocks
    | b => [b]
  wrap name b :=
    match name with
    | "ordered" => .list .ordered [[b]]
    | "unordered" => .list .unordered [[b]]
    | _ => .quote [b]
  mapLiteral f
    | .leaf node => .leaf (node.mapLiteral f)
    | b => b
  mapLevel f
    | .heading level text => .heading (f level) text
    | b => b
  mapUrl _ b := b

end MarkdownTree
