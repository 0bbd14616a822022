/-!
Markdown syntax trees as a text parser makes them (mdast): many more kinds of node than a document
has, definitions and references not yet brought together, and a position for each node. Kinds with
children are kept apart from kinds without.
-/

namespace MarkdownTree.Mdast

/-! ### Data of nodes -/

/-- A place in a text: line and column from one, offset from zero. -/
structure Point where
  line : Nat
  column : Nat
  offset : Nat
  deriving DecidableEq, Repr

/-- Where a node starts and where it ends. -/
structure Position where
  start : Point
  stop : Point
  deriving DecidableEq, Repr

/-- A definition that links and images can refer to by its identifier. The label is the identifier
as it was written. -/
structure Definition where
  url : String
  title : Option String
  identifier : String
  label : Option String
  deriving DecidableEq, Repr

inductive ReferenceKind where
  | full
  | collapsed
  | shortcut
  deriving DecidableEq, Repr

/-- What a link or image refers to a definition by. -/
structure Reference where
  kind : ReferenceKind
  identifier : String
  label : Option String
  deriving DecidableEq, Repr

/-- Where a column of a table has its cells. -/
inductive Alignment where
  | left
  | right
  | center
  | unaligned
  deriving DecidableEq, Repr

/-- An embedded expression, with pairs of an offset in the value and an offset in the text. -/
structure Expression where
  value : String
  stops : List (Nat × Nat)
  deriving DecidableEq, Repr

inductive AttributeValue where
  | literal (text : String)
  | expression (expression : Expression)
  deriving DecidableEq, Repr

/-- An attribute of an embedded element. -/
inductive Attribute where
  | property (name : String) (value : Option AttributeValue)
  | expression (expression : Expression)
  deriving DecidableEq, Repr

/-! ### Nodes -/

/-- A kind of node that has children, with its data. -/
inductive Parent where
  | root
  | paragraph
  | heading (depth : UInt8)
  | blockquote
  | list (ordered : Bool) (start : Option Nat) (spread : Bool)
  | listItem (spread : Bool) (checked : Option Bool)
  | emphasis
  | strong
  | delete
  | link (url : String) (title : Option String)
  | linkReference (reference : Reference)
  | footnoteDefinition (identifier : String) (label : Option String)
  | table (align : List Alignment)
  | tableRow
  | tableCell
  | flowElement (name : Option String) (attributes : List Attribute)
  | textElement (name : Option String) (attributes : List Attribute)
  deriving DecidableEq, Repr

/-- A kind of node that has no children, with its data. -/
inductive Leaf where
  | thematicBreak
  | hardBreak
  | html (value : String)
  | text (value : String)
  | inlineCode (value : String)
  | inlineMath (value : String)
  | yaml (value : String)
  | toml (value : String)
  | code (value : String) (lang : Option String) (info : Option String)
  | math (value : String) (info : Option String)
  | definition (definition : Definition)
  | image (alt : String) (url : String) (title : Option String)
  | imageReference (alt : String) (reference : Reference)
  | footnoteReference (identifier : String) (label : Option String)
  | esm (code : Expression)
  | flowExpression (expression : Expression)
  | textExpression (expression : Expression)
  deriving DecidableEq, Repr

/-- A node of a syntax tree. -/
inductive Node where
  | parent (kind : Parent) (children : List Node) (position : Option Position)
  | leaf (kind : Leaf) (position : Option Position)

/-- The children in order, none for a kind without. -/
def Node.children : Node → List Node
  | .parent _ children _ => children
  | .leaf _ _ => []

/-! ### Plain text -/

/-- The text that a leaf stands for in plain text. Breaks, images, definitions and references to
footnotes have none. -/
def Leaf.plainText : Leaf → String
  | .html value | .text value | .inlineCode value | .inlineMath value => value
  | .yaml value | .toml value | .code value _ _ | .math value _ => value
  | .esm expression | .flowExpression expression | .textExpression expression => expression.value
  | .thematicBreak | .hardBreak | .definition _ => ""
  | .image .. | .imageReference .. | .footnoteReference .. => ""

mutual

/-- The plain text of a node: that of its leaves in order. -/
def Node.plainText : Node → String
  | .parent _ children _ => Node.plainTextAll children
  | .leaf kind _ => kind.plainText

/-- The plain text of nodes in order. -/
def Node.plainTextAll : List Node → String
  | [] => ""
  | node :: nodes => Node.plainText node ++ Node.plainTextAll nodes

end

end MarkdownTree.Mdast
