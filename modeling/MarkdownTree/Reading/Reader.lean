import MarkdownTree.Reading.Definitions
import MarkdownTree.Reading.Error
import MarkdownTree.Reading.Lines

/-!
Reading a syntax tree as a document. The definitions of the whole tree are collected first; then the
nodes are read in order, each as a block, as an item of a list or as an inline, according to where it
stands. A node that cannot stand there ends the reading. A node that documents have no counterpart
for becomes a custom node with its plain text, if the reader keeps such nodes, and otherwise ends the
reading too.
-/

namespace MarkdownTree

open Mdast (Node Leaf Parent Reference)

/-- A reading: a value or the cause of its failure, and in both cases a log. -/
abbrev Reading := ExceptT ReadError Logged

/-- What reading a node depends on besides the node. -/
structure Reader where
  definitions : Definitions
  /-- Whether nodes without a counterpart are kept. -/
  keepUnsupported : Bool

namespace Reader

/-- The literal that an unsupported node is kept as. -/
def keep (r : Reader) (node : Node) : Reading String :=
  if r.keepUnsupported then do
    Logged.event (.keptUnsupported node.plainText)
    pure node.plainText
  else throw (.unsupported node)

/-- The target that a reference stands for. -/
def resolve (r : Reader) (reference : Reference) : Reading Target :=
  match r.definitions.find? reference.identifier with
  | some target => pure target
  | none => throw (.missingDefinition (reference.label.getD reference.identifier))

/-- The alternative text of an image as its children. -/
def alt (text : String) : List Inline := if text.isEmpty then [] else [.text text]

/-- The language of a code block: its info string, which needs a first word. -/
def language (lang info : Option String) : Option String :=
  match lang, info with
  | some lang, some info => some (lang ++ " " ++ info)
  | lang, _ => lang

/-! ### Inlines -/

mutual

/-- Reads a node as an inline; a text may become several inlines or none. -/
def inline (r : Reader) : Node → Reading (List Inline)
  | .leaf kind position =>
    match kind with
    | .text value => pure (Inline.ofText value)
    | .hardBreak => pure [.lineBreak]
    | .inlineCode value => pure [.code value]
    | .html value => pure [.html value]
    | .image text url title => pure [.span (.image ⟨title, some url⟩) (alt text)]
    | .imageReference text reference => do
      let target ← r.resolve reference
      pure [.span (.image target) (alt text)]
    | .inlineMath _ | .footnoteReference .. | .textExpression _ => do
      let literal ← r.keep (.leaf kind position)
      pure [.custom literal]
    | .thematicBreak | .yaml _ | .toml _ | .code .. | .math .. | .definition _
    | .esm _ | .flowExpression _ => throw (.notInline (.leaf kind position))
  | .parent kind children position =>
    match kind with
    | .emphasis => do
      let children ← r.inlines children
      pure [.span .emphasis children]
    | .strong => do
      let children ← r.inlines children
      pure [.span .strong children]
    | .link url title => do
      let children ← r.inlines children
      pure [.span (.link ⟨title, some url⟩) children]
    | .linkReference reference => do
      let target ← r.resolve reference
      let children ← r.inlines children
      pure [.span (.link target) children]
    | .delete | .textElement .. => do
      let literal ← r.keep (.parent kind children position)
      pure [.custom literal]
    | .root | .paragraph | .heading _ | .blockquote | .list .. | .listItem ..
    | .footnoteDefinition .. | .table _ | .tableRow | .tableCell | .flowElement .. =>
      throw (.notInline (.parent kind children position))

/-- Reads nodes as inlines in order. -/
def inlines (r : Reader) : List Node → Reading (List Inline)
  | [] => pure []
  | node :: nodes => do
    let xs ← r.inline node
    let ys ← r.inlines nodes
    pure (xs ++ ys)

end

/-! ### Blocks -/

mutual

/-- Reads a node as a block; a root may become several blocks, and a definition none. -/
def block (r : Reader) : Node → Reading (List Block)
  | .leaf kind position =>
    match kind with
    | .thematicBreak => pure [.thematicBreak]
    | .html value => pure [.html value]
    | .code value lang info => pure [.codeBlock value (language lang info)]
    | .definition d => do
      Logged.event (.droppedDefinition d.identifier)
      pure []
    | .yaml _ | .toml _ | .math .. | .esm _ | .flowExpression _ => do
      let literal ← r.keep (.leaf kind position)
      pure [.custom literal]
    | .hardBreak | .text _ | .inlineCode _ | .inlineMath _ | .image .. | .imageReference ..
    | .footnoteReference .. | .textExpression _ => throw (.notBlock (.leaf kind position))
  | .parent kind children position =>
    match kind with
    | .root => r.blocks children
    | .paragraph => do
      let text ← r.inlines children
      pure [.paragraph text]
    | .heading depth => do
      let text ← r.inlines children
      pure [.heading depth text]
    | .blockquote => do
      let blocks ← r.blocks children
      pure [.quote blocks]
    | .list ordered .. => do
      let items ← r.items children
      pure [.list (if ordered then .ordered else .unordered) items]
    | .footnoteDefinition .. | .table _ | .flowElement .. => do
      let literal ← r.keep (.parent kind children position)
      pure [.custom literal]
    | .listItem .. | .emphasis | .strong | .delete | .link .. | .linkReference _
    | .tableRow | .tableCell | .textElement .. => throw (.notBlock (.parent kind children position))

/-- Reads nodes as blocks in order. -/
def blocks (r : Reader) : List Node → Reading (List Block)
  | [] => pure []
  | node :: nodes => do
    let bs ← r.block node
    let cs ← r.blocks nodes
    pure (bs ++ cs)

/-- Reads a node as an item of a list. -/
def item (r : Reader) : Node → Reading (List Block)
  | .leaf kind position => throw (.notListItem (.leaf kind position))
  | .parent kind children position =>
    match kind with
    | .listItem .. => r.blocks children
    | kind => throw (.notListItem (.parent kind children position))

/-- Reads nodes as items in order. -/
def items (r : Reader) : List Node → Reading (List (List Block))
  | [] => pure []
  | node :: nodes => do
    let item ← r.item node
    let items ← r.items nodes
    pure (item :: items)

end

end Reader

/-- Reads a syntax tree, whatever its top node, as a document. -/
def readNode (keepUnsupported : Bool) (node : Node) : Reading Document := do
  let definitions ← Definitions.collect {} node
  Reader.blocks { definitions, keepUnsupported } [node]

/-- Reads what the text parser made of a text: a syntax tree, or a reason for refusing it. -/
def readParsed (keepUnsupported : Bool) : Except String Node → Reading Document
  | .ok node => readNode keepUnsupported node
  | .error reason => throw (.refused reason)

end MarkdownTree
