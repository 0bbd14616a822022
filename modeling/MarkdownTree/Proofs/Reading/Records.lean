import MarkdownTree.Proofs.Mdast.Inlined
import MarkdownTree.Proofs.Reading.Definitions
import MarkdownTree.Proofs.Reading.Lines
import MarkdownTree.Proofs.Reading.Outcome
import MarkdownTree.Proofs.Reading.Visit
import MarkdownTree.Proofs.Tree.Record

/-!
What each node of a syntax tree becomes in the document that is read from it. Apart from texts, a node
that is reached becomes one node of the document or none; the nodes of the document are these and no
others, in the same order. Main statement: `records_readNode`.
-/

namespace MarkdownTree

open Mdast (Node Leaf Parent Definition)
open Reading

/-! ### The nodes of a tree -/

mutual

/-- A node in a place and the nodes below it that are reached, in pre-order, each with its place. What is
below a kind whose children have no place is not reached. -/
def Mdast.Node.reached (place : Place) : Node → List (Place × Node)
  | .leaf kind position => [(place, .leaf kind position)]
  | .parent kind children position =>
    (place, .parent kind children position) ::
      match kind.childPlace with
      | some inside => Node.reachedAll inside children
      | none => []

def Mdast.Node.reachedAll (place : Place) : List Node → List (Place × Node)
  | [] => []
  | node :: nodes => Node.reached place node ++ Node.reachedAll place nodes

end

/-- An image with its alternative text. -/
def altRecord (target : Target) (alt : String) : Record :=
  .image target (if alt = "" then [] else [.text alt])

/-- What a leaf in a place becomes, where references stand for the given definitions. -/
def Mdast.Leaf.record? (find? : String → Option Definition) (place : Place) (kind : Leaf) :
    Option Record :=
  match kind with
  | .thematicBreak => some (.leafBlock .thematicBreak)
  | .hardBreak => some (.leafInline .lineBreak)
  | .html value =>
    if place = .inline then some (.leafInline (.html value)) else some (.leafBlock (.html value))
  | .inlineCode value => some (.leafInline (.code value))
  | .code value none _ => some (.leafBlock (.codeBlock value none))
  | .code value (some lang) none => some (.leafBlock (.codeBlock value (some lang)))
  | .code value (some lang) (some info) =>
    some (.leafBlock (.codeBlock value (some (lang ++ " " ++ info))))
  | .image alt url title => some (altRecord ⟨title, some url⟩ alt)
  | .imageReference alt reference =>
    (find? reference.identifier).map fun d => altRecord ⟨d.title, some d.url⟩ alt
  | .yaml _ | .toml _ | .math .. | .esm _ | .flowExpression _ =>
    some (.leafBlock (.custom kind.plainText))
  | .inlineMath _ | .footnoteReference .. | .textExpression _ =>
    some (.leafInline (.custom kind.plainText))
  | .text _ | .definition _ => none

/-- What a node in a place becomes, where references stand for the given definitions. -/
def Mdast.Node.record? (find? : String → Option Definition) (place : Place) :
    Node → Option Record
  | .leaf kind _ => kind.record? find? place
  | .parent kind children _ =>
    match kind with
    | .paragraph => some (.carrier .paragraph)
    | .heading depth => some (.carrier (.heading depth))
    | .blockquote => some .quote
    | .list ordered .. => some (.list (if ordered then .ordered else .unordered) children.length)
    | .emphasis => some .emphasis
    | .strong => some .strong
    | .link url title => some (.link ⟨title, some url⟩)
    | .linkReference reference =>
      (find? reference.identifier).map fun d => .link ⟨d.title, some d.url⟩
    | .footnoteDefinition .. | .table _ | .flowElement .. =>
      some (.leafBlock (.custom (Node.plainTextAll children)))
    | .delete | .textElement .. => some (.leafInline (.custom (Node.plainTextAll children)))
    | .root | .listItem .. | .tableRow | .tableCell => none

/-- The records of the nodes reached from nodes in a place. -/
def Mdast.Node.recordsAll (find? : String → Option Definition) (place : Place)
    (nodes : List Node) : List Record :=
  (Node.reachedAll place nodes).filterMap fun v => v.2.record? find? v.1

def Mdast.Node.records (find? : String → Option Definition) (place : Place) (node : Node) :
    List Record :=
  (node.reached place).filterMap fun v => v.2.record? find? v.1

section

variable {find? : String → Option Definition} {place inside : Place}

theorem Mdast.Node.recordsAll_cons (node : Node) (nodes : List Node) :
    Node.recordsAll find? place (node :: nodes) =
      node.records find? place ++ Node.recordsAll find? place nodes := by
  rw [recordsAll, reachedAll, List.filterMap_append]
  rfl

theorem Mdast.Node.records_leaf (kind : Leaf) (position : Option Mdast.Position) :
    (Node.leaf kind position).records find? place = (kind.record? find? place).toList := by
  rw [records, reached]
  cases h : kind.record? find? place <;> simp [record?, h]

/-- A node that becomes a node of the document comes before what is below it. -/
theorem Mdast.Node.records_parent {kind : Parent} {children : List Node}
    {position : Option Mdast.Position} (h : kind.childPlace = some inside) :
    (Node.parent kind children position).records find? place =
      ((Node.parent kind children position).record? find? place).toList ++
        Node.recordsAll find? inside children := by
  rw [records, reached, h]
  cases hr : (Node.parent kind children position).record? find? place <;>
    simp [hr, recordsAll]

/-- Below a node that is kept as a whole nothing is reached. -/
theorem Mdast.Node.records_whole {kind : Parent} {children : List Node}
    {position : Option Mdast.Position} (h : kind.childPlace = none) :
    (Node.parent kind children position).records find? place =
      ((Node.parent kind children position).record? find? place).toList := by
  rw [records, reached, h]
  cases hr : (Node.parent kind children position).record? find? place <;> simp [hr]

end

/-! ### Inlines -/

/-- A text becomes no record, whatever its lines are. -/
theorem Inline.recordsAll_ofText (text : String) : Inline.recordsAll (Inline.ofText text) = [] := by
  refine Inline.recordsAll_eq_nil ?_
  intro x hx
  rcases Inline.mem_ofText hx with rfl | ⟨line, -, -, rfl⟩ <;> rfl

theorem Inline.recordsAll_image (target : Target) (alt : String) :
    Inline.recordsAll [.span (.image target) (Reader.alt alt)] = [altRecord target alt] := by
  unfold altRecord Reader.alt
  by_cases h : alt = ""
  · subst h
    rfl
  · rw [if_neg (mt String.isEmpty_iff.mp h), if_neg h]
    rfl

namespace Reader

/-- The reader knows the targets of the definitions that `find?` gives, and no others. -/
def Knows (r : Reader) (find? : String → Option Definition) : Prop :=
  ∀ identifier, r.definitions.find? identifier = (find? identifier).map Definition.target

variable {r : Reader} {find? : String → Option Definition}

/-- A reference is read only if there is a definition for it. -/
theorem Knows.gives_resolve (knows : r.Knows find?) (reference : Mdast.Reference) :
    (r.resolve reference).Gives fun target =>
      ∃ d, find? reference.identifier = some d ∧ target = ⟨d.title, some d.url⟩ := by
  refine (r.gives_resolve reference).mono ?_
  intro target found
  rw [knows] at found
  obtain ⟨d, hd, rfl⟩ := Option.map_eq_some_iff.mp found
  exact ⟨d, hd, rfl⟩

mutual

theorem records_inline (knows : r.Knows find?) : ∀ node : Node,
    (r.inline node).Gives fun xs => Inline.recordsAll xs = node.records find? .inline
  | .leaf kind position => by
    rw [Node.records_leaf]
    unfold inline
    cases kind with
    | text value => exact gives_pure.mpr (Inline.recordsAll_ofText value)
    | hardBreak | inlineCode | html => exact gives_pure.mpr rfl
    | image alt url title => exact gives_pure.mpr (Inline.recordsAll_image _ alt)
    | imageReference alt reference =>
      refine (knows.gives_resolve reference).bind ?_
      rintro target ⟨d, hd, rfl⟩
      rw [gives_pure, Inline.recordsAll_image, Leaf.record?, hd]
      rfl
    | inlineMath | footnoteReference | textExpression => exact r.gives_kept fun _ => rfl
    | _ => exact gives_throw
  | .parent kind children position => by
    have ih := records_inlines knows children
    unfold inline
    cases kind with
    | emphasis | strong | link =>
      rw [Node.records_parent rfl]
      refine ih.bind ?_
      intro xs hxs
      rw [gives_pure, Inline.recordsAll_singleton, Inline.records, hxs]
      rfl
    | linkReference reference =>
      rw [Node.records_parent rfl, Node.record?]
      refine (knows.gives_resolve reference).bind ?_
      rintro target ⟨d, hd, rfl⟩
      refine ih.bind ?_
      intro xs hxs
      rw [gives_pure, Inline.recordsAll_singleton, Inline.records, hxs, hd]
      rfl
    | delete | textElement =>
      rw [Node.records_whole rfl]
      exact r.gives_kept fun _ => rfl
    | _ => exact gives_throw

theorem records_inlines (knows : r.Knows find?) : ∀ nodes : List Node,
    (r.inlines nodes).Gives fun xs =>
      Inline.recordsAll xs = Node.recordsAll find? .inline nodes
  | [] => by
    rw [inlines, gives_pure]
    rfl
  | node :: nodes => by
    rw [inlines, Node.recordsAll_cons]
    refine (records_inline knows node).bind ?_
    intro xs hxs
    refine (records_inlines knows nodes).bind ?_
    intro ys hys
    rw [gives_pure, Inline.recordsAll_append, hxs, hys]

end

/-! ### Blocks -/

theorem records_code (value : String) (lang info : Option String) :
    Block.recordsAll [.codeBlock value (language lang info)] =
      (Leaf.record? find? .block (.code value lang info)).toList := by
  cases lang <;> cases info <;> rfl

mutual

theorem records_block (knows : r.Knows find?) : ∀ node : Node,
    (r.block node).Gives fun bs => Block.recordsAll bs = node.records find? .block
  | .leaf kind position => by
    rw [Node.records_leaf]
    unfold block
    cases kind with
    | thematicBreak | html => exact gives_pure.mpr rfl
    | code value lang info => exact gives_pure.mpr (records_code value lang info)
    | definition d =>
      rw [gives_bind]
      intro _ _
      exact gives_pure.mpr rfl
    | yaml | toml | math | esm | flowExpression => exact r.gives_kept fun _ => rfl
    | _ => exact gives_throw
  | .parent kind children position => by
    unfold block
    cases kind with
    | root =>
      rw [Node.records_parent rfl]
      exact records_blocks knows children
    | paragraph | heading =>
      rw [Node.records_parent rfl]
      refine (records_inlines knows children).bind ?_
      intro xs hxs
      rw [gives_pure, Block.recordsAll_singleton, Block.records, hxs]
      rfl
    | blockquote =>
      rw [Node.records_parent rfl]
      refine (records_blocks knows children).bind ?_
      intro bs hbs
      rw [gives_pure, Block.recordsAll_singleton, Block.records, hbs]
      rfl
    | list =>
      rw [Node.records_parent rfl]
      refine (records_items knows children).bind ?_
      rintro items ⟨count, hitems⟩
      rw [gives_pure, Block.recordsAll_singleton, Block.records, hitems, count]
      rfl
    | footnoteDefinition | table | flowElement =>
      rw [Node.records_whole rfl]
      exact r.gives_kept fun _ => rfl
    | _ => exact gives_throw

theorem records_blocks (knows : r.Knows find?) : ∀ nodes : List Node,
    (r.blocks nodes).Gives fun bs => Block.recordsAll bs = Node.recordsAll find? .block nodes
  | [] => by
    rw [blocks, gives_pure]
    rfl
  | node :: nodes => by
    rw [blocks, Node.recordsAll_cons]
    refine (records_block knows node).bind ?_
    intro bs hbs
    refine (records_blocks knows nodes).bind ?_
    intro cs hcs
    rw [gives_pure, Block.recordsAll_append, hbs, hcs]

theorem records_item (knows : r.Knows find?) : ∀ node : Node,
    (r.item node).Gives fun bs => Block.recordsAll bs = node.records find? .item
  | .leaf kind position => by
    rw [item]
    exact gives_throw
  | .parent kind children position => by
    unfold item
    cases kind with
    | listItem =>
      rw [Node.records_parent rfl]
      exact records_blocks knows children
    | _ => exact gives_throw

/-- Each child of a list is one item. -/
theorem records_items (knows : r.Knows find?) : ∀ nodes : List Node,
    (r.items nodes).Gives fun items =>
      items.length = nodes.length ∧
        Block.recordsItems items = Node.recordsAll find? .item nodes
  | [] => by
    rw [items, gives_pure]
    exact ⟨rfl, rfl⟩
  | node :: nodes => by
    rw [items, Node.recordsAll_cons]
    refine (records_item knows node).bind ?_
    intro item hitem
    refine (records_items knows nodes).bind ?_
    rintro items ⟨count, hitems⟩
    rw [gives_pure, List.length_cons, List.length_cons, count, Block.recordsItems, hitem, hitems]
    exact ⟨rfl, rfl⟩

end

end Reader

/-! ### Readings of trees -/

/-- **A document has what the nodes of its tree become, node by node.** In pre-order, the records of the
document are those of the nodes that are reached in the tree, references standing for the first
definition in the whole tree. -/
theorem records_readNode (keep : Bool) {ast : Node} {doc : Document}
    (h : (readNode keep ast).outcome = .ok doc) :
    doc.records =
      (ast.reached .block).filterMap fun v => v.2.record? ast.findDefinition? v.1 := by
  let r : Reader := ⟨(Definitions.collect {} ast).value, keep⟩
  have knows : r.Knows ast.findDefinition? := Definitions.find?_collect ast
  have all := Reader.records_blocks knows [ast] doc h
  rw [Node.recordsAll_cons] at all
  exact all.trans (List.append_nil _)

/-- A list of two items, the first one with a reference to what the tree defines twice, once in a
table. -/
def referringList : Node :=
  .parent .root [
    .parent (.list true none false) [
      .parent (.listItem false none) [
        .leaf (.html "<hr>") none,
        .parent .paragraph [
          .parent (.linkReference ⟨.full, "a", none⟩) [.leaf (.text "x\ny") none] none,
          .leaf (.html "<br>") none] none] none,
      .parent (.listItem false none) [] none] none,
    .parent (.table []) [.leaf (.definition ⟨"/1", none, "a", none⟩) none] none,
    .leaf (.definition ⟨"/2", none, "a", none⟩) none] none

theorem records_readNode_referringList :
    let doc : Document := [
      .list .ordered [
        [.html "<hr>", .paragraph [
          .span (.link ⟨none, some "/1"⟩) [.text "x", .softBreak, .text "y"], .html "<br>"]],
        []],
      .custom ""]
    (readNode true referringList).outcome = .ok doc ∧
      doc.records = ((referringList.reached .block).filterMap fun v =>
        v.2.record? referringList.findDefinition? v.1) ∧
      doc.records = [.list .ordered 2, .leafBlock (.html "<hr>"), .carrier .paragraph,
        .link ⟨none, some "/1"⟩, .leafInline (.html "<br>"), .leafBlock (.custom "")] :=
  ⟨rfl, records_readNode true rfl, rfl⟩

end MarkdownTree
