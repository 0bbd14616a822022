import MarkdownTree.Mdast.Listing

/-!
Why a text or a syntax tree cannot be read as a document.
-/

namespace MarkdownTree

open Mdast (Node)

/-- The cause of a failed reading. A cause that lies in a node carries that node. -/
inductive ReadError where
  /-- A part that documents have no node for. -/
  | unsupported (node : Node)
  /-- A reference to a definition that the tree does not have, by its label if it has one. -/
  | missingDefinition (name : String)
  /-- A child of a list that is no list item. -/
  | notListItem (node : Node)
  /-- A node among inlines that is none. -/
  | notInline (node : Node)
  /-- A node among blocks that is none. -/
  | notBlock (node : Node)
  /-- A text that the text parser refused, with its reason. -/
  | refused (reason : String)

namespace ReadError

def kind : ReadError → String
  | .unsupported _ => "Unsupported"
  | .missingDefinition _ => "MissingReferenceDefinition"
  | .notListItem _ => "NonListItemDirectlyUnderList"
  | .notInline _ => "NonInlineWhereInlineExpected"
  | .notBlock _ => "NonBlockWhereBlockExpected"
  | .refused _ => "ParseError"

/-- The message for a cause, a line with its end. -/
def message : ReadError → String
  | .unsupported node => "unsupported node: " ++ node.listing ++ "\n"
  | .missingDefinition name => "couldn't find definition for link/image: " ++ name ++ "\n"
  | .notListItem node => "expected a list item, but found: " ++ node.listing ++ "\n"
  | .notInline node => "expected an inline element, but found: " ++ node.listing ++ "\n"
  | .notBlock node => "expected a block element, but found: " ++ node.listing ++ "\n"
  | .refused reason => "error when parsing markdown: " ++ reason ++ "\n"

end ReadError

end MarkdownTree
