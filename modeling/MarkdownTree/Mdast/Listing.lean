import MarkdownTree.Mdast.Node
import MarkdownTree.Text.Quoted

/-!
The listing of a syntax tree: one line that shows every field of every node, for messages about
parts of a tree. A node is the name of its kind with its fields in braces; texts are quoted.
-/

namespace MarkdownTree.Mdast

open Text (quoted)

/-! ### Values -/

/-- Listed values between brackets. -/
def listingOfList (values : List String) : String := "[" ++ ", ".intercalate values ++ "]"

/-- A value that may be missing. -/
def listingOfOption : Option String → String
  | some value => "Some(" ++ value ++ ")"
  | none => "None"

/-- A name with named fields in braces. -/
def listingOfRecord (name : String) (fields : List (String × String)) : String :=
  let fields := fields.map fun (field, value) => field ++ ": " ++ value
  name ++ " \x7b " ++ ", ".intercalate fields ++ " \x7d"

def listingOfText? (text : Option String) : String := listingOfOption (text.map quoted)

def listingOfBool (value : Bool) : String := if value then "true" else "false"

/-- Line and column of both ends, then both offsets in parentheses. -/
def Position.listing (p : Position) : String :=
  toString p.start.line ++ ":" ++ toString p.start.column ++ "-"
    ++ toString p.stop.line ++ ":" ++ toString p.stop.column
    ++ " (" ++ toString p.start.offset ++ "-" ++ toString p.stop.offset ++ ")"

def ReferenceKind.listing : ReferenceKind → String
  | .full => "Full"
  | .collapsed => "Collapsed"
  | .shortcut => "Shortcut"

def Alignment.listing : Alignment → String
  | .left => "Left"
  | .right => "Right"
  | .center => "Center"
  | .unaligned => "None"

def listingOfStops (stops : List (Nat × Nat)) : String :=
  listingOfList (stops.map fun (inner, outer) =>
    "(" ++ toString inner ++ ", " ++ toString outer ++ ")")

def AttributeValue.listing : AttributeValue → String
  | .literal text => "Literal(" ++ quoted text ++ ")"
  | .expression e =>
    let record := listingOfRecord "AttributeValueExpression"
      [("value", quoted e.value), ("stops", listingOfStops e.stops)]
    "Expression(" ++ record ++ ")"

def Attribute.listing : Attribute → String
  | .property name value =>
    let record := listingOfRecord "MdxJsxAttribute"
      [("name", quoted name), ("value", listingOfOption (value.map AttributeValue.listing))]
    "Property(" ++ record ++ ")"
  | .expression e =>
    let record := listingOfRecord "MdxJsxExpressionAttribute"
      [("value", quoted e.value), ("stops", listingOfStops e.stops)]
    "Expression(" ++ record ++ ")"

/-! ### Nodes -/

/-- The fields that name a definition. -/
def identifierFields (identifier : String) (label : Option String) : List (String × String) :=
  [("identifier", quoted identifier), ("label", listingOfText? label)]

def Reference.fields (r : Reference) : List (String × String) :=
  ("reference_kind", r.kind.listing) :: identifierFields r.identifier r.label

def Parent.name : Parent → String
  | .root => "Root"
  | .paragraph => "Paragraph"
  | .heading _ => "Heading"
  | .blockquote => "Blockquote"
  | .list .. => "List"
  | .listItem .. => "ListItem"
  | .emphasis => "Emphasis"
  | .strong => "Strong"
  | .delete => "Delete"
  | .link .. => "Link"
  | .linkReference _ => "LinkReference"
  | .footnoteDefinition .. => "FootnoteDefinition"
  | .table _ => "Table"
  | .tableRow => "TableRow"
  | .tableCell => "TableCell"
  | .flowElement .. => "MdxJsxFlowElement"
  | .textElement .. => "MdxJsxTextElement"

/-- The fields of a kind with children, after the children and the position. -/
def Parent.fields : Parent → List (String × String)
  | .heading depth => [("depth", toString depth.toNat)]
  | .list ordered start spread =>
    [("ordered", listingOfBool ordered), ("start", listingOfOption (start.map toString)),
      ("spread", listingOfBool spread)]
  | .listItem spread checked =>
    [("spread", listingOfBool spread), ("checked", listingOfOption (checked.map listingOfBool))]
  | .link url title => [("url", quoted url), ("title", listingOfText? title)]
  | .linkReference reference => reference.fields
  | .footnoteDefinition identifier label => identifierFields identifier label
  | .table align => [("align", listingOfList (align.map Alignment.listing))]
  | .flowElement name attributes | .textElement name attributes =>
    [("name", listingOfText? name),
      ("attributes", listingOfList (attributes.map Attribute.listing))]
  | .root | .paragraph | .blockquote | .emphasis | .strong | .delete | .tableRow | .tableCell => []

def Leaf.name : Leaf → String
  | .thematicBreak => "ThematicBreak"
  | .hardBreak => "Break"
  | .html _ => "Html"
  | .text _ => "Text"
  | .inlineCode _ => "InlineCode"
  | .inlineMath _ => "InlineMath"
  | .yaml _ => "Yaml"
  | .toml _ => "Toml"
  | .code .. => "Code"
  | .math .. => "Math"
  | .definition _ => "Definition"
  | .image .. => "Image"
  | .imageReference .. => "ImageReference"
  | .footnoteReference .. => "FootnoteReference"
  | .esm _ => "MdxjsEsm"
  | .flowExpression _ => "MdxFlowExpression"
  | .textExpression _ => "MdxTextExpression"

/-- The value of a kind that has one, before the position. -/
def Leaf.valueFields : Leaf → List (String × String)
  | .html value | .text value | .inlineCode value | .inlineMath value
  | .yaml value | .toml value | .code value _ _ | .math value _ => [("value", quoted value)]
  | .esm e | .flowExpression e | .textExpression e => [("value", quoted e.value)]
  | .thematicBreak | .hardBreak | .definition _
  | .image .. | .imageReference .. | .footnoteReference .. => []

/-- The fields of a kind without children, after the position. -/
def Leaf.fields : Leaf → List (String × String)
  | .code _ lang info => [("lang", listingOfText? lang), ("meta", listingOfText? info)]
  | .math _ info => [("meta", listingOfText? info)]
  | .definition d =>
    [("url", quoted d.url), ("title", listingOfText? d.title)] ++ identifierFields d.identifier d.label
  | .image alt url title =>
    [("alt", quoted alt), ("url", quoted url), ("title", listingOfText? title)]
  | .imageReference alt reference => ("alt", quoted alt) :: reference.fields
  | .footnoteReference identifier label => identifierFields identifier label
  | .esm e | .flowExpression e | .textExpression e => [("stops", listingOfStops e.stops)]
  | .thematicBreak | .hardBreak | .html _ | .text _ | .inlineCode _ | .inlineMath _
  | .yaml _ | .toml _ => []

def positionField (position : Option Position) : String × String :=
  ("position", listingOfOption (position.map Position.listing))

mutual

/-- The listing of a node with all its descendants. -/
def Node.listing : Node → String
  | .parent kind children position =>
    let children := listingOfList (Node.listingAll children)
    listingOfRecord kind.name (("children", children) :: positionField position :: kind.fields)
  | .leaf kind position =>
    listingOfRecord kind.name (kind.valueFields ++ positionField position :: kind.fields)

/-- The listings of nodes in order. -/
def Node.listingAll : List Node → List String
  | [] => []
  | node :: nodes => Node.listing node :: Node.listingAll nodes

end

end MarkdownTree.Mdast
