import MarkdownTree.Proofs.Mdast.Subnode
import MarkdownTree.Proofs.Reading.Lines
import MarkdownTree.Proofs.Reading.Outcome

/-!
A reading keeps the plain text of a tree: nothing is lost, doubled or moved. The one thing that a
document does not keep is the carriage return of a line end, so the statement is about trees whose
texts have none. Main statement: `plainText_readNode`.
-/

namespace MarkdownTree

open Mdast (Node Leaf Parent)
open Reading

namespace Mdast

/-- No text node among nodes and those below has a carriage return before a newline. -/
def Node.PlainEndsOf (nodes : List Node) : Prop :=
  ∀ value position, .leaf (.text value) position ∈ Node.allOf nodes →
    ¬ ['\r', '\n'] <:+: value.toList

/-- No text node of a tree has a carriage return before a newline. -/
def Node.PlainEnds (node : Node) : Prop :=
  ∀ value position, .leaf (.text value) position ∈ node.all → ¬ ['\r', '\n'] <:+: value.toList

theorem Node.PlainEnds.children {kind : Parent} {children : List Node}
    {position : Option Position} (h : Node.PlainEnds (.parent kind children position)) :
    Node.PlainEndsOf children := fun value position hmem =>
  h value position (List.mem_cons_of_mem _ hmem)

theorem Node.plainEndsOf_cons {node : Node} {nodes : List Node} :
    Node.PlainEndsOf (node :: nodes) ↔ node.PlainEnds ∧ Node.PlainEndsOf nodes := by
  unfold PlainEndsOf PlainEnds
  rw [allOf]
  simp only [List.mem_append]
  constructor
  · intro h
    exact ⟨fun value position hmem => h value position (.inl hmem),
      fun value position hmem => h value position (.inr hmem)⟩
  · rintro ⟨hnode, hnodes⟩ value position (hmem | hmem)
    · exact hnode value position hmem
    · exact hnodes value position hmem

end Mdast

namespace Reader

variable (r : Reader)

/-! ### Inlines -/

theorem plainText_customInline (node : Node) :
    (r.keep node >>= fun literal => pure [Inline.custom literal]).Gives
      fun xs => Inline.plainTextAll xs = node.plainText := by
  refine (r.gives_keep node).bind ?_
  rintro literal rfl
  rw [gives_pure, Inline.plainTextAll_singleton]
  rfl

mutual

theorem plainText_inline : ∀ {node : Node}, node.PlainEnds →
    (r.inline node).Gives fun xs => Inline.plainTextAll xs = node.plainText
  | .leaf kind position, ends => by
    unfold inline
    cases kind with
    | text value =>
      -- the one kind whose value is taken apart
      have hvalue := ends value position (List.mem_singleton_self _)
      rw [gives_pure, Inline.plainTextAll_ofText, unifyEnds_eq_self hvalue, String.ofList_toList]
      rfl
    | hardBreak | html | inlineCode | image =>
      rw [gives_pure, Inline.plainTextAll_singleton]
      rfl
    | imageReference =>
      rw [gives_bind]
      intro target _
      rw [gives_pure, Inline.plainTextAll_singleton]
      rfl
    | inlineMath | footnoteReference | textExpression => exact r.plainText_customInline _
    | _ => exact gives_throw
  | .parent kind children position, ends => by
    unfold inline
    cases kind with
    | emphasis | strong | link =>
      refine (plainText_inlines ends.children).bind ?_
      intro xs hxs
      rw [gives_pure, Inline.plainTextAll_singleton]
      exact hxs
    | linkReference =>
      rw [gives_bind]
      intro target _
      refine (plainText_inlines ends.children).bind ?_
      intro xs hxs
      rw [gives_pure, Inline.plainTextAll_singleton]
      exact hxs
    | delete | textElement => exact r.plainText_customInline _
    | _ => exact gives_throw

theorem plainText_inlines : ∀ {nodes : List Node}, Node.PlainEndsOf nodes →
    (r.inlines nodes).Gives fun xs => Inline.plainTextAll xs = Node.plainTextAll nodes
  | [], _ => by
    rw [inlines, gives_pure]
    rfl
  | node :: nodes, ends => by
    obtain ⟨here, rest⟩ := Node.plainEndsOf_cons.mp ends
    rw [inlines]
    refine (plainText_inline here).bind ?_
    intro xs hxs
    refine (plainText_inlines rest).bind ?_
    intro ys hys
    rw [gives_pure, Inline.plainTextAll_append, hxs, hys]
    rfl

end

/-! ### Blocks -/

theorem plainText_customBlock (node : Node) :
    (r.keep node >>= fun literal => pure [Block.custom literal]).Gives
      fun bs => Block.plainTextAll bs = node.plainText := by
  refine (r.gives_keep node).bind ?_
  rintro literal rfl
  rw [gives_pure, Block.plainTextAll_singleton]
  rfl

mutual

theorem plainText_block : ∀ {node : Node}, node.PlainEnds →
    (r.block node).Gives fun bs => Block.plainTextAll bs = node.plainText
  | .leaf kind position, _ => by
    unfold block
    cases kind with
    | thematicBreak | html | code =>
      rw [gives_pure, Block.plainTextAll_singleton]
      rfl
    | definition =>
      rw [gives_bind]
      intro _ _
      rw [gives_pure]
      rfl
    | yaml | toml | math | esm | flowExpression => exact r.plainText_customBlock _
    | _ => exact gives_throw
  | .parent kind children position, ends => by
    unfold block
    cases kind with
    | root => exact plainText_blocks ends.children
    | paragraph | heading =>
      refine (r.plainText_inlines ends.children).bind ?_
      intro xs hxs
      rw [gives_pure, Block.plainTextAll_singleton]
      exact hxs
    | blockquote =>
      refine (plainText_blocks ends.children).bind ?_
      intro bs hbs
      rw [gives_pure, Block.plainTextAll_singleton]
      exact hbs
    | list =>
      refine (plainText_items ends.children).bind ?_
      intro items hitems
      rw [gives_pure, Block.plainTextAll_singleton]
      exact hitems
    | footnoteDefinition | table | flowElement => exact r.plainText_customBlock _
    | _ => exact gives_throw

theorem plainText_blocks : ∀ {nodes : List Node}, Node.PlainEndsOf nodes →
    (r.blocks nodes).Gives fun bs => Block.plainTextAll bs = Node.plainTextAll nodes
  | [], _ => by
    rw [blocks, gives_pure]
    rfl
  | node :: nodes, ends => by
    obtain ⟨here, rest⟩ := Node.plainEndsOf_cons.mp ends
    rw [blocks]
    refine (plainText_block here).bind ?_
    intro bs hbs
    refine (plainText_blocks rest).bind ?_
    intro cs hcs
    rw [gives_pure, Block.plainTextAll_append, hbs, hcs]
    rfl

theorem plainText_item : ∀ {node : Node}, node.PlainEnds →
    (r.item node).Gives fun bs => Block.plainTextAll bs = node.plainText
  | .leaf kind position, _ => by
    rw [item]
    exact gives_throw
  | .parent kind children position, ends => by
    unfold item
    cases kind with
    | listItem => exact plainText_blocks ends.children
    | _ => exact gives_throw

theorem plainText_items : ∀ {nodes : List Node}, Node.PlainEndsOf nodes →
    (r.items nodes).Gives fun items => Block.plainTextItems items = Node.plainTextAll nodes
  | [], _ => by
    rw [items, gives_pure]
    rfl
  | node :: nodes, ends => by
    obtain ⟨here, rest⟩ := Node.plainEndsOf_cons.mp ends
    rw [items]
    refine (plainText_item here).bind ?_
    intro item hitem
    refine (plainText_items rest).bind ?_
    intro items hitems
    rw [gives_pure, Block.plainTextItems, hitem, hitems]
    rfl

end

end Reader

/-- **Reading keeps the plain text.** A document has the plain text of the tree that it was read from,
whether unsupported nodes were kept or not. -/
theorem plainText_readNode (keep : Bool) {ast : Node} {doc : Document} (ends : ast.PlainEnds)
    (h : (readNode keep ast).outcome = .ok doc) : doc.plainText = ast.plainText := by
  let r : Reader := ⟨(Definitions.collect {} ast).value, keep⟩
  have hread : (r.blocks [ast]).outcome = .ok doc := h
  have hone : Node.PlainEndsOf [ast] := Node.plainEndsOf_cons.mpr ⟨ends, nofun⟩
  rw [Document.plainText, r.plainText_blocks hone doc hread]
  exact String.append_empty

/-- A quoted text of two lines, with a link that is defined after it. -/
def quotedReference : Node :=
  .parent .root [
    .parent .blockquote [
      .parent .paragraph [
        .leaf (.text "one\n") none,
        .parent (.linkReference ⟨.shortcut, "two", none⟩) [.leaf (.inlineCode "two") none] none]
        none] none,
    .leaf (.definition ⟨"/two", none, "two", none⟩) none] none

theorem plainText_quotedReference :
    let doc : Document := [.quote [.paragraph [.text "one", .softBreak,
      .span (.link ⟨none, some "/two"⟩) [.code "two"]]]]
    quotedReference.PlainEnds ∧ (readNode false quotedReference).outcome = .ok doc ∧
      doc.plainText = quotedReference.plainText := by
  have ends : quotedReference.PlainEnds := by
    intro value position hmem
    obtain ⟨rfl, -⟩ : value = "one\n" ∧ position = none := by
      simpa [quotedReference, Node.all, Node.allOf] using hmem
    decide
  exact ⟨ends, rfl, plainText_readNode false ends rfl⟩

end MarkdownTree
