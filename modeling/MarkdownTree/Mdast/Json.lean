import MarkdownTree.Json
import MarkdownTree.Mdast.Node

/-!
Reading syntax trees from JSON. A node is an object with its kind as `type`; what its kind does not
have is ignored, and a field that its kind may lack may be absent or `null`.
-/

namespace MarkdownTree.Mdast

open Json (required? optional?)

/-! ### Data of nodes -/

/-- The members of an object. -/
abbrev Members := List (String × Json)

def text? (name : String) (members : Members) : Option String :=
  required? Json.string? name members

def optionalText? (name : String) (members : Members) : Option (Option String) :=
  optional? Json.string? name members

/-- A line, a column or an offset: a word of 64 bits. -/
def word? : Json → Option Nat := Json.natBelow? UInt64.size

def Point.ofJson? (value : Json) : Option Point := do
  let members ← value.members?
  let line ← required? word? "line" members
  let column ← required? word? "column" members
  let offset ← required? word? "offset" members
  some { line, column, offset }

def Position.ofJson? (value : Json) : Option Position := do
  let members ← value.members?
  let start ← required? Point.ofJson? "start" members
  let stop ← required? Point.ofJson? "end" members
  some { start, stop }

def ReferenceKind.ofJson? : Json → Option ReferenceKind
  | .string "full" => some .full
  | .string "collapsed" => some .collapsed
  | .string "shortcut" => some .shortcut
  | _ => none

def Reference.ofMembers? (members : Members) : Option Reference := do
  let kind ← required? ReferenceKind.ofJson? "referenceType" members
  let identifier ← text? "identifier" members
  let label ← optionalText? "label" members
  some { kind, identifier, label }

def Definition.ofMembers? (members : Members) : Option Definition := do
  let url ← text? "url" members
  let title ← optionalText? "title" members
  let identifier ← text? "identifier" members
  let label ← optionalText? "label" members
  some { url, title, identifier, label }

def Alignment.ofJson? : Json → Option Alignment
  | .string "left" => some .left
  | .string "right" => some .right
  | .string "center" => some .center
  | .null => some .unaligned
  | _ => none

def stop? : Json → Option (Nat × Nat)
  | .array [inner, outer] => do
    let inner ← word? inner
    let outer ← word? outer
    some (inner, outer)
  | _ => none

def Expression.ofMembers? (members : Members) : Option Expression := do
  let value ← text? "value" members
  let stops ← required? (·.listOf? stop?) "_markdownRsStops" members
  some { value, stops }

def AttributeValue.ofJson? : Json → Option AttributeValue
  | .string value => some (.literal value)
  | .object members => (Expression.ofMembers? members).map .expression
  | _ => none

/-- An attribute with a name is a property, another an expression. -/
def Attribute.ofJson? (value : Json) : Option Attribute := do
  let members ← value.members?
  if (members.lookup "name").isSome then
    let name ← text? "name" members
    let value ← optional? AttributeValue.ofJson? "value" members
    some (.property name value)
  else (Expression.ofMembers? members).map .expression

/-! ### Nodes -/

/-- The kind with children of a given name. -/
def Parent.ofMembers? (type : String) (members : Members) : Option Parent :=
  match type with
  | "root" => some .root
  | "paragraph" => some .paragraph
  | "blockquote" => some .blockquote
  | "emphasis" => some .emphasis
  | "strong" => some .strong
  | "delete" => some .delete
  | "tableRow" => some .tableRow
  | "tableCell" => some .tableCell
  | "heading" => (required? Json.byte? "depth" members).map .heading
  | "list" => do
    let ordered ← required? Json.bool? "ordered" members
    let start ← optional? (Json.natBelow? UInt32.size) "start" members
    let spread ← required? Json.bool? "spread" members
    some (.list ordered start spread)
  | "listItem" => do
    let spread ← required? Json.bool? "spread" members
    let checked ← optional? Json.bool? "checked" members
    some (.listItem spread checked)
  | "link" => do
    let url ← text? "url" members
    let title ← optionalText? "title" members
    some (.link url title)
  | "linkReference" => (Reference.ofMembers? members).map .linkReference
  | "footnoteDefinition" => do
    let identifier ← text? "identifier" members
    let label ← optionalText? "label" members
    some (.footnoteDefinition identifier label)
  | "table" => (required? (·.listOf? Alignment.ofJson?) "align" members).map .table
  | "mdxJsxFlowElement" | "mdxJsxTextElement" => do
    let name ← optionalText? "name" members
    let attributes ← required? (·.listOf? Attribute.ofJson?) "attributes" members
    some (if type == "mdxJsxFlowElement" then .flowElement name attributes
      else .textElement name attributes)
  | _ => none

/-- The kind without children of a given name. -/
def Leaf.ofMembers? (type : String) (members : Members) : Option Leaf :=
  match type with
  | "thematicBreak" => some .thematicBreak
  | "break" => some .hardBreak
  | "html" => (text? "value" members).map .html
  | "text" => (text? "value" members).map .text
  | "inlineCode" => (text? "value" members).map .inlineCode
  | "inlineMath" => (text? "value" members).map .inlineMath
  | "yaml" => (text? "value" members).map .yaml
  | "toml" => (text? "value" members).map .toml
  | "code" => do
    let value ← text? "value" members
    let lang ← optionalText? "lang" members
    let info ← optionalText? "meta" members
    some (.code value lang info)
  | "math" => do
    let value ← text? "value" members
    let info ← optionalText? "meta" members
    some (.math value info)
  | "definition" => (Definition.ofMembers? members).map .definition
  | "image" => do
    let alt ← text? "alt" members
    let url ← text? "url" members
    let title ← optionalText? "title" members
    some (.image alt url title)
  | "imageReference" => do
    let alt ← text? "alt" members
    let reference ← Reference.ofMembers? members
    some (.imageReference alt reference)
  | "footnoteReference" => do
    let identifier ← text? "identifier" members
    let label ← optionalText? "label" members
    some (.footnoteReference identifier label)
  | "mdxjsEsm" => (Expression.ofMembers? members).map .esm
  | "mdxFlowExpression" => (Expression.ofMembers? members).map .flowExpression
  | "mdxTextExpression" => (Expression.ofMembers? members).map .textExpression
  | _ => none

mutual

def Node.ofJson? : Json → Option Node
  | .object members => do
    let type ← text? "type" members
    let position ← optional? Position.ofJson? "position" members
    match Leaf.ofMembers? type members with
    | some kind => some (.leaf kind position)
    | none =>
      let kind ← Parent.ofMembers? type members
      let children ← Node.childrenOfJson? members
      some (.parent kind children position)
  | _ => none

/-- The nodes of the `children` of an object. -/
def Node.childrenOfJson? : Members → Option (List Node)
  | [] => none
  | (key, value) :: members =>
    if key = "children" then Node.listOfJson? value else Node.childrenOfJson? members

/-- An array of nodes. -/
def Node.listOfJson? : Json → Option (List Node)
  | .array elements => Node.allOfJson? elements
  | _ => none

/-- Nodes in order. -/
def Node.allOfJson? : List Json → Option (List Node)
  | [] => some []
  | x :: xs => do
    let node ← Node.ofJson? x
    let nodes ← Node.allOfJson? xs
    some (node :: nodes)

end

end MarkdownTree.Mdast
