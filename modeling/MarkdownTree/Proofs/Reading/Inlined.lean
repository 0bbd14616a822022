import MarkdownTree.Proofs.Mdast.Inlined
import MarkdownTree.Proofs.Reading.Definitions
import MarkdownTree.Proofs.Reading.Outcome

/-!
References are read as what they refer to: a tree and the same tree with its definitions inlined are
read as the same document. Both readings are followed node by node, and of each the value alone is
compared, as errors carry nodes and a log tells of definitions. Main statement: `readNode_inlined`.
-/

namespace MarkdownTree

open Mdast (Node Leaf Parent Reference Definition)

namespace Reader

open Reading

/-- A definition is read as no block at all. -/
theorem value?_blocks_withoutDefinitions (r : Reader) (nodes : List Node) :
    (r.blocks (Node.withoutDefinitions nodes)).value? = (r.blocks nodes).value? := by
  induction nodes with
  | nil => rfl
  | cons node nodes ih =>
    rw [Node.withoutDefinitions_cons]
    cases h : node.definition? with
    | none => simp [blocks, ih]
    | some d =>
      obtain ⟨position, rfl⟩ := Node.definition?_eq_some h
      simp [blocks, block, ih]

/-! ### Two readers -/

/-- The first reader knows the targets that `find?` gives, and the second one knows none that it does
not give. Otherwise they are alike. -/
structure Agree (find? : String → Option Definition) (r r' : Reader) : Prop where
  keepUnsupported : r'.keepUnsupported = r.keepUnsupported
  defined : ∀ identifier,
    r.definitions.find? identifier = (find? identifier).map Definition.target
  undefined : ∀ identifier, find? identifier = none → r'.definitions.find? identifier = none

namespace Agree

variable {find? : String → Option Definition} {r r' : Reader}

theorem value?_keep (agree : Agree find? r r') (node : Node) :
    (r'.keep (node.resolved find?)).value? = (r.keep node).value? := by
  rw [Reader.value?_keep, Reader.value?_keep, agree.keepUnsupported, Node.plainText_resolved]

mutual

theorem value?_inline (agree : Agree find? r r') : ∀ node : Node,
    (r'.inline (node.resolved find?)).value? = (r.inline node).value?
  | .leaf kind position => by
    cases kind with
    | imageReference alt reference =>
      cases h : find? reference.identifier with
      | some d => simp [Node.resolved, Leaf.resolved, inline, agree.defined, h, Definition.target]
      | none => simp [Node.resolved, Leaf.resolved, inline, agree.defined, agree.undefined, h]
    | inlineMath | footnoteReference | textExpression =>
      exact value?_bind_congr (agree.value?_keep (.leaf _ position)) _
    | _ => rfl
  | .parent kind children position => by
    have ih := agree.value?_inlines children
    cases kind with
    | emphasis | strong | link => exact value?_bind_congr ih _
    | linkReference reference =>
      cases h : find? reference.identifier with
      | some d =>
        simp [Node.resolved, Parent.resolved, Parent.holdsBlocks, inline, ih, agree.defined, h,
          Definition.target]
      | none => simp [Node.resolved, Parent.resolved, inline, agree.defined, agree.undefined, h]
    | delete | textElement =>
      exact value?_bind_congr (agree.value?_keep (.parent _ children position)) _
    | _ => rfl

theorem value?_inlines (agree : Agree find? r r') : ∀ nodes : List Node,
    (r'.inlines (Node.resolvedAll find? nodes)).value? = (r.inlines nodes).value?
  | [] => rfl
  | node :: nodes => by
    simp [Node.resolvedAll, inlines, agree.value?_inline node, agree.value?_inlines nodes]

end

mutual

theorem value?_block (agree : Agree find? r r') : ∀ node : Node,
    (r'.block (node.resolved find?)).value? = (r.block node).value?
  | .leaf kind position => by
    cases kind with
    | imageReference alt reference =>
      -- no block, whether it is resolved or not
      cases h : find? reference.identifier <;> simp [Node.resolved, Leaf.resolved, block, h]
    | yaml | toml | math | esm | flowExpression =>
      exact value?_bind_congr (agree.value?_keep (.leaf _ position)) _
    | _ => rfl
  | .parent kind children position => by
    have ih := (r'.value?_blocks_withoutDefinitions _).trans (agree.value?_blocks children)
    cases kind with
    | root => exact ih
    | paragraph | heading => exact value?_bind_congr (agree.value?_inlines children) _
    | blockquote => exact value?_bind_congr ih _
    | list => exact value?_bind_congr (agree.value?_items children) _
    | linkReference reference =>
      cases h : find? reference.identifier <;> simp [Node.resolved, Parent.resolved, block, h]
    | footnoteDefinition | table | flowElement =>
      exact value?_bind_congr (agree.value?_keep (.parent _ children position)) _
    | _ => rfl

theorem value?_blocks (agree : Agree find? r r') : ∀ nodes : List Node,
    (r'.blocks (Node.resolvedAll find? nodes)).value? = (r.blocks nodes).value?
  | [] => rfl
  | node :: nodes => by
    simp [Node.resolvedAll, blocks, agree.value?_block node, agree.value?_blocks nodes]

theorem value?_item (agree : Agree find? r r') : ∀ node : Node,
    (r'.item (node.resolved find?)).value? = (r.item node).value?
  | .leaf kind position => by
    rw [Node.resolved, item, item]
    rfl
  | .parent kind children position => by
    have ih := (r'.value?_blocks_withoutDefinitions _).trans (agree.value?_blocks children)
    rw [Node.resolved]
    cases kind with
    | listItem => exact ih
    | linkReference reference =>
      cases h : find? reference.identifier <;> simp [Parent.resolved, item, h]
    | _ => simp [Parent.resolved, item]

theorem value?_items (agree : Agree find? r r') : ∀ nodes : List Node,
    (r'.items (Node.resolvedAll find? nodes)).value? = (r.items nodes).value?
  | [] => rfl
  | node :: nodes => by
    simp [Node.resolvedAll, items, agree.value?_item node, agree.value?_items nodes]

end

end Agree

end Reader

/-! ### Readings of trees -/

theorem find?_collect_inlined {ast : Node} {identifier : String}
    (h : ast.findDefinition? identifier = none) :
    (Definitions.collect {} ast.inlined).value.find? identifier = none := by
  rw [Definitions.find?_collect]
  exact Option.map_eq_none_iff.mpr (Node.findDefinition?_inlined h)

/-- **Reading resolves the references of a tree.** A tree is read as a document just if the tree with
its definitions inlined is: each reference resolved by the first definition of the whole tree, and no
definition left among blocks. -/
theorem readNode_inlined (keep : Bool) (ast : Node) (doc : Document) :
    (readNode keep ast.inlined).outcome = .ok doc ↔ (readNode keep ast).outcome = .ok doc := by
  have agree : Reader.Agree ast.findDefinition? ⟨(Definitions.collect {} ast).value, keep⟩
      ⟨(Definitions.collect {} ast.inlined).value, keep⟩ :=
    ⟨rfl, Definitions.find?_collect ast, fun _ => find?_collect_inlined⟩
  have same : (readNode keep ast.inlined).value? = (readNode keep ast).value? :=
    agree.value?_blocks [ast]
  rw [← Reading.value?_eq_some, ← Reading.value?_eq_some, same]

/-- A reference before its definition, which is in a table that is kept as text. -/
example :
    let ast : Node := .parent .root [
      .parent .paragraph [.leaf (.imageReference "alt" ⟨.full, "a", none⟩) none] none,
      .parent (.table []) [.leaf (.definition ⟨"/1", none, "a", none⟩) none] none,
      .leaf (.definition ⟨"/2", none, "a", none⟩) none] none
    ast.inlined.children.length = 2 ∧ (readNode true ast.inlined).outcome =
      .ok [.paragraph [.span (.image ⟨none, some "/1"⟩) [.text "alt"]], .custom ""] :=
  ⟨rfl, rfl⟩

end MarkdownTree
