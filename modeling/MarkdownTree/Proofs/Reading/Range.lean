import MarkdownTree.Proofs.Reading.Definitions
import MarkdownTree.Proofs.Reading.Lines
import MarkdownTree.Proofs.Reading.Outcome
import MarkdownTree.Proofs.Tree.Normal

/-!
The documents that are read from some syntax tree. Every reading gives a document in normal form; and a
document in normal form is written as a tree, node by node, that is read as the document again. Main
statement: `exists_readNode_iff`.
-/

namespace MarkdownTree

open Mdast (Node)
open Reading

/-! ### What is read is normal -/

theorem Inline.readableFlow_ofText (custom : Bool) (text : String) :
    Inline.ReadableFlow custom (Inline.ofText text) := by
  intro x hx
  rcases Inline.mem_ofText hx with rfl | ⟨line, hline, hne, rfl⟩
  · exact ⟨trivial, nofun⟩
  · refine ⟨fun e => hne ?_, ?_⟩
    · simpa using congrArg String.toList e
    · intro literal heq
      cases heq
      rw [String.toList_ofList]
      exact newline_not_mem_of_mem_lines _ line hline

theorem Inline.every_alt (custom : Bool) (text : String) :
    Inline.EveryOf (Inline.Readable custom) (Reader.alt text) ∧
      (Reader.alt text = [] ∨ ∃ literal, Reader.alt text = [.text literal]) := by
  unfold Reader.alt
  split
  · exact ⟨trivial, .inl rfl⟩
  · next hne =>
    exact ⟨⟨fun e => hne (String.isEmpty_iff.mpr e), trivial⟩, .inr ⟨text, rfl⟩⟩

namespace Reader

/-- The definitions of the reader have a url. -/
def TargetsHaveUrl (r : Reader) : Prop :=
  ∀ identifier target, r.definitions.find? identifier = some target → target.url.isSome

section Sound

variable {r : Reader}

theorem readableFlow_span {kind : Span} {children : List Inline}
    (here : (Inline.span kind children).Readable r.keepUnsupported)
    (below : Inline.EveryOf (Inline.Readable r.keepUnsupported) children) :
    Inline.ReadableFlow r.keepUnsupported [.span kind children] :=
  Inline.readableFlow_singleton.mpr ⟨⟨here, below⟩, nofun⟩

theorem readable_image {target : Target} (url : target.url.isSome) (alt : String) :
    Inline.ReadableFlow r.keepUnsupported [.span (.image target) (Reader.alt alt)] := by
  obtain ⟨below, shape⟩ := Inline.every_alt r.keepUnsupported alt
  exact readableFlow_span ⟨url, shape⟩ below

mutual

theorem readable_inline (targets : r.TargetsHaveUrl) : ∀ node : Node,
    (r.inline node).Gives (Inline.ReadableFlow r.keepUnsupported)
  | .leaf kind position => by
    unfold inline
    cases kind with
    | text value => exact gives_pure.mpr (Inline.readableFlow_ofText _ value)
    | hardBreak | inlineCode | html =>
      exact gives_pure.mpr (Inline.readableFlow_singleton.mpr ⟨trivial, nofun⟩)
    | image alt url title => exact gives_pure.mpr (readable_image rfl alt)
    | imageReference alt reference =>
      refine (r.gives_resolve reference).bind ?_
      intro target found
      exact gives_pure.mpr (readable_image (targets _ target found) alt)
    | inlineMath | footnoteReference | textExpression =>
      exact r.gives_kept fun kept => Inline.readableFlow_singleton.mpr ⟨kept, nofun⟩
    | _ => exact gives_throw
  | .parent kind children position => by
    have ih := readable_inlines targets children
    unfold inline
    cases kind with
    | emphasis | strong =>
      refine ih.bind ?_
      intro xs hxs
      exact gives_pure.mpr (readableFlow_span hxs.unbroken hxs.every)
    | link url title =>
      refine ih.bind ?_
      intro xs hxs
      exact gives_pure.mpr (readableFlow_span ⟨rfl, hxs.unbroken⟩ hxs.every)
    | linkReference reference =>
      refine (r.gives_resolve reference).bind ?_
      intro target found
      refine ih.bind ?_
      intro xs hxs
      exact gives_pure.mpr
        (readableFlow_span ⟨targets _ target found, hxs.unbroken⟩ hxs.every)
    | delete | textElement =>
      exact r.gives_kept fun kept => Inline.readableFlow_singleton.mpr ⟨kept, nofun⟩
    | _ => exact gives_throw

theorem readable_inlines (targets : r.TargetsHaveUrl) : ∀ nodes : List Node,
    (r.inlines nodes).Gives (Inline.ReadableFlow r.keepUnsupported)
  | [] => by
    rw [inlines, gives_pure]
    exact nofun
  | node :: nodes => by
    rw [inlines]
    refine (readable_inline targets node).bind ?_
    intro xs hxs
    refine (readable_inlines targets nodes).bind ?_
    intro ys hys
    exact gives_pure.mpr (Inline.readableFlow_append.mpr ⟨hxs, hys⟩)

end

mutual

theorem readable_block (targets : r.TargetsHaveUrl) : ∀ node : Node,
    (r.block node).Gives (Block.EveryOf (Block.Readable r.keepUnsupported))
  | .leaf kind position => by
    unfold block
    cases kind with
    | thematicBreak | html | code => exact gives_pure.mpr ⟨trivial, trivial⟩
    | definition d =>
      rw [gives_bind]
      intro _ _
      exact gives_pure.mpr trivial
    | yaml | toml | math | esm | flowExpression =>
      exact r.gives_kept fun kept => ⟨kept, trivial⟩
    | _ => exact gives_throw
  | .parent kind children position => by
    have ih := readable_blocks targets children
    unfold block
    cases kind with
    | root => exact ih
    | paragraph | heading =>
      refine (readable_inlines targets children).bind ?_
      intro xs hxs
      exact gives_pure.mpr ⟨hxs, trivial⟩
    | blockquote =>
      refine ih.bind ?_
      intro bs hbs
      exact gives_pure.mpr ⟨⟨trivial, hbs⟩, trivial⟩
    | list =>
      refine (readable_items targets children).bind ?_
      intro items hitems
      exact gives_pure.mpr ⟨⟨trivial, hitems⟩, trivial⟩
    | footnoteDefinition | table | flowElement => exact r.gives_kept fun kept => ⟨kept, trivial⟩
    | _ => exact gives_throw

theorem readable_blocks (targets : r.TargetsHaveUrl) : ∀ nodes : List Node,
    (r.blocks nodes).Gives (Block.EveryOf (Block.Readable r.keepUnsupported))
  | [] => by
    rw [blocks, gives_pure]
    trivial
  | node :: nodes => by
    rw [blocks]
    refine (readable_block targets node).bind ?_
    intro bs hbs
    refine (readable_blocks targets nodes).bind ?_
    intro cs hcs
    exact gives_pure.mpr (Block.everyOf_append.mpr ⟨hbs, hcs⟩)

theorem readable_item (targets : r.TargetsHaveUrl) : ∀ node : Node,
    (r.item node).Gives (Block.EveryOf (Block.Readable r.keepUnsupported))
  | .leaf kind position => by
    rw [item]
    exact gives_throw
  | .parent kind children position => by
    unfold item
    cases kind with
    | listItem => exact readable_blocks targets children
    | _ => exact gives_throw

theorem readable_items (targets : r.TargetsHaveUrl) : ∀ nodes : List Node,
    (r.items nodes).Gives (Block.EveryOfItems (Block.Readable r.keepUnsupported))
  | [] => by
    rw [items, gives_pure]
    trivial
  | node :: nodes => by
    rw [items]
    refine (readable_item targets node).bind ?_
    intro item hitem
    refine (readable_items targets nodes).bind ?_
    intro items hitems
    exact gives_pure.mpr ⟨hitem, hitems⟩

end

end Sound

end Reader

/-! ### Writing a document as a tree -/

mutual

/-- A node that is read as the inline. Custom inlines are the literals of formulas. -/
def Inline.toNode : Inline → Node
  | .text literal => .leaf (.text literal) none
  | .softBreak => .leaf (.text "\n") none
  | .lineBreak => .leaf .hardBreak none
  | .code literal => .leaf (.inlineCode literal) none
  | .html literal => .leaf (.html literal) none
  | .custom literal => .leaf (.inlineMath literal) none
  | .span .emphasis children => .parent .emphasis (Inline.toNodes children) none
  | .span .strong children => .parent .strong (Inline.toNodes children) none
  | .span (.link target) children =>
    .parent (.link (target.url.getD "") target.title) (Inline.toNodes children) none
  | .span (.image target) children =>
    .leaf (.image (Inline.plainTextAll children) (target.url.getD "") target.title) none

def Inline.toNodes : List Inline → List Node
  | [] => []
  | x :: xs => Inline.toNode x :: Inline.toNodes xs

end

mutual

/-- A node that is read as the block. The language of a code block is its language alone, and custom
blocks are the literals of front matter. -/
def Block.toNode : Block → Node
  | .codeBlock text language => .leaf (.code text language none) none
  | .html literal => .leaf (.html literal) none
  | .custom literal => .leaf (.yaml literal) none
  | .thematicBreak => .leaf .thematicBreak none
  | .paragraph text => .parent .paragraph (Inline.toNodes text) none
  | .heading level text => .parent (.heading level) (Inline.toNodes text) none
  | .list type items => .parent (.list (type == .ordered) none false) (Block.toItems items) none
  | .quote blocks => .parent .blockquote (Block.toNodes blocks) none

def Block.toNodes : List Block → List Node
  | [] => []
  | b :: bs => Block.toNode b :: Block.toNodes bs

def Block.toItems : List (List Block) → List Node
  | [] => []
  | item :: items => .parent (.listItem false none) (Block.toNodes item) none :: Block.toItems items

end

/-- A tree that is read as the document. -/
def Document.toNode (doc : Document) : Node := .parent .root (Block.toNodes doc) none

/-! ### A normal document is read back -/

namespace Reader

theorem alt_plainTextAll {custom : Bool} {children : List Inline}
    (texts : Inline.EveryOf (Inline.Readable custom) children)
    (shape : children = [] ∨ ∃ literal, children = [.text literal]) :
    alt (Inline.plainTextAll children) = children := by
  rcases shape with rfl | ⟨literal, rfl⟩
  · rfl
  · have hne : literal ≠ "" := texts.1
    have same : Inline.plainTextAll [.text literal] = literal := Inline.plainTextAll_singleton _
    rw [same, alt, if_neg (mt String.isEmpty_iff.mp hne)]

theorem target_getD {target : Target} (h : target.url.isSome) :
    (⟨target.title, some (target.url.getD "")⟩ : Target) = target := by
  obtain ⟨title, url⟩ := target
  cases url with
  | none => cases h
  | some url => rfl

section Complete

variable (r : Reader)

mutual

theorem value?_inline_toNode : ∀ {x : Inline}, x.Every (Inline.Readable r.keepUnsupported) →
    x.Unbroken → (r.inline x.toNode).value? = some [x]
  | .leaf node, readable, unbroken => by
    cases node with
    | text literal =>
      have line := Inline.ofText_line readable (unbroken literal rfl)
      rw [Inline.toNode, inline, value?_pure, line]
    | custom literal =>
      have kept : r.keepUnsupported = true := readable
      rw [Inline.toNode, inline, value?_bind, value?_keep, if_pos kept]
      rfl
    | softBreak | lineBreak | code | html => rfl
  | .span kind children, ⟨here, below⟩, _ => by
    cases kind with
    | emphasis | strong =>
      rw [Inline.toNode, inline, value?_bind, value?_inlines_toNodes below here]
      rfl
    | link target =>
      rw [Inline.toNode, inline, value?_bind, value?_inlines_toNodes below here.2,
        Option.bind_some, value?_pure, target_getD here.1]
    | image target =>
      rw [Inline.toNode, inline, value?_pure, target_getD here.1, alt_plainTextAll below here.2]

theorem value?_inlines_toNodes : ∀ {xs : List Inline},
    Inline.EveryOf (Inline.Readable r.keepUnsupported) xs → (∀ x ∈ xs, x.Unbroken) →
      (r.inlines (Inline.toNodes xs)).value? = some xs
  | [], _, _ => rfl
  | x :: xs, ⟨here, rest⟩, unbroken => by
    obtain ⟨hx, hxs⟩ := List.forall_mem_cons.mp unbroken
    simp [Inline.toNodes, inlines, value?_inline_toNode here hx, value?_inlines_toNodes rest hxs]

end

mutual

theorem value?_block_toNode : ∀ {b : Block}, b.Every (Block.Readable r.keepUnsupported) →
    (r.block b.toNode).value? = some [b]
  | .leaf node, readable => by
    cases node with
    | custom literal =>
      have kept : r.keepUnsupported = true := readable
      rw [Block.toNode, block, value?_bind, value?_keep, if_pos kept]
      rfl
    | codeBlock text language => cases language <;> rfl
    | html | thematicBreak => rfl
  | .carrier kind text, readable => by
    have flow : Inline.ReadableFlow r.keepUnsupported text := readable
    cases kind <;>
      simp [Block.toNode, block, r.value?_inlines_toNodes flow.every flow.unbroken]
  | .list type items, ⟨_, below⟩ => by
    cases type <;> simp [Block.toNode, block, value?_items_toItems below]
  | .quote blocks, ⟨_, below⟩ => by
    simp [Block.toNode, block, value?_blocks_toNodes below]

theorem value?_blocks_toNodes : ∀ {bs : List Block},
    Block.EveryOf (Block.Readable r.keepUnsupported) bs →
      (r.blocks (Block.toNodes bs)).value? = some bs
  | [], _ => rfl
  | b :: bs, ⟨here, rest⟩ => by
    simp [Block.toNodes, blocks, value?_block_toNode here, value?_blocks_toNodes rest]

theorem value?_items_toItems : ∀ {items : List (List Block)},
    Block.EveryOfItems (Block.Readable r.keepUnsupported) items →
      (r.items (Block.toItems items)).value? = some items
  | [], _ => rfl
  | item :: items, ⟨here, rest⟩ => by
    simp [Block.toItems, Reader.items, Reader.item, value?_blocks_toNodes here,
      value?_items_toItems rest]

end

end Complete

end Reader

/-! ### Readings of trees -/

/-- **The documents that are read from some tree are those in normal form.** Where unsupported nodes are
not kept, they are those in normal form without custom nodes. -/
theorem exists_readNode_iff (keep : Bool) (doc : Document) :
    (∃ ast, (readNode keep ast).outcome = .ok doc) ↔
      doc.Normal ∧ (keep = false → doc.WithoutCustom) := by
  rw [← Document.readable_iff]
  constructor
  · rintro ⟨ast, h⟩
    let r : Reader := ⟨(Definitions.collect {} ast).value, keep⟩
    have targets : r.TargetsHaveUrl := by
      intro identifier target found
      rw [Definitions.find?_collect, Option.map_eq_some_iff] at found
      obtain ⟨d, -, rfl⟩ := found
      rfl
    exact Reader.readable_blocks targets [ast] doc h
  · intro readable
    let r : Reader := ⟨(Definitions.collect {} doc.toNode).value, keep⟩
    have back : (r.blocks (Block.toNodes doc)).value? = some doc := r.value?_blocks_toNodes readable
    have top : (r.blocks [doc.toNode]).value? = some doc := by
      simp [Reader.blocks, Document.toNode, Reader.block, back]
    exact ⟨doc.toNode, value?_eq_some.mp top⟩

/-- A carriage return may stand before a soft break, where the two are read from two nodes. -/
example :
    let ast : Node := .parent .paragraph [
      .leaf (.text "a\r") none, .leaf (.text "\n") none, .leaf (.text "b\r\n") none] none
    (readNode false ast).outcome =
      .ok [.paragraph [.text "a\r", .softBreak, .text "b", .softBreak]] :=
  rfl

end MarkdownTree
