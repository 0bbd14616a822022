import MarkdownTree.Proofs.Rose.Fold
import MarkdownTree.Proofs.Tree.Outline
import MarkdownTree.Tree.Fold

/-!
The calls of the fold of a document. The fold is that of its outline, by the functions that the algebra
has for the labels. Main statement: each function is called once for each node of its kind, in post-order,
with the node's data and the values of its children (`Document.fold_calls`).
-/

namespace MarkdownTree

variable {m n : Type → Type} {R S : Type}

/-! ### The functions of an algebra, by label -/

namespace Algebra

/-- The function for the nodes with a label, applied to the values of a node's children. -/
def function? (A : Algebra m R) : Label → List R → Option (m R)
  | .leafInline node, _ => A.inline.leaf node
  | .span kind, values => A.inline.span values kind
  | .leafBlock node, _ => A.leaf node
  | .carrier kind, values => A.carrier values kind
  | .list type, values => A.list.map (· values type)
  | .quote, values => A.quote.map (· values)
  | .item, values => A.listItem.map (· values)
  | .document, values => A.document.map (· values)

/-- The algebra has a function for the nodes with a label. -/
def asks (A : Algebra m R) (label : Label) : Bool := (A.function? label []).isSome

/-- What the algebra makes of a label and the values of the children. -/
def call [Monad m] (A : Algebra m R) (c : Label × List R) : m R :=
  A.orDefault (A.function? c.1 c.2)

/-- The algebra that has functions where `A` has, each of which hands over to `f` what kind of node it is
for, the data it gets and the values it gets. -/
def asking (A : Algebra m R) (f : Label × List R → n R) : Algebra n R where
  defaultValue := A.defaultValue
  inline := {
    text := A.inline.text.map fun _ literal => f (.leafInline (.text literal), [])
    softBreak := A.inline.softBreak.map fun _ => f (.leafInline .softBreak, [])
    lineBreak := A.inline.lineBreak.map fun _ => f (.leafInline .lineBreak, [])
    code := A.inline.code.map fun _ literal => f (.leafInline (.code literal), [])
    html := A.inline.html.map fun _ literal => f (.leafInline (.html literal), [])
    custom := A.inline.custom.map fun _ literal => f (.leafInline (.custom literal), [])
    emphasis := A.inline.emphasis.map fun _ values => f (.span .emphasis, values)
    strong := A.inline.strong.map fun _ values => f (.span .strong, values)
    link := A.inline.link.map fun _ values target => f (.span (.link target), values)
    image := A.inline.image.map fun _ values target => f (.span (.image target), values)
  }
  list := A.list.map fun _ values type => f (.list type, values)
  listItem := A.listItem.map fun _ values => f (.item, values)
  quote := A.quote.map fun _ values => f (.quote, values)
  codeBlock := A.codeBlock.map fun _ text language => f (.leafBlock (.codeBlock text language), [])
  html := A.html.map fun _ literal => f (.leafBlock (.html literal), [])
  paragraph := A.paragraph.map fun _ values => f (.carrier .paragraph, values)
  heading := A.heading.map fun _ values level => f (.carrier (.heading level), values)
  custom := A.custom.map fun _ literal => f (.leafBlock (.custom literal), [])
  thematicBreak := A.thematicBreak.map fun _ => f (.leafBlock .thematicBreak, [])
  document := A.document.map fun _ values => f (.document, values)

theorem map_const_eq_self {α : Type} {o : Option α} {a : α} (h : ∀ b, o = some b → a = b) :
    (o.map fun _ => a) = o := by
  cases o with
  | none => rfl
  | some b => rw [Option.map_some, h b rfl]

/-- The function for a label is handed that label and no other. -/
theorem asking_call [Monad m] (A : Algebra m R) : A.asking A.call = A := by
  obtain ⟨defaultValue, ⟨_, _, _, _, _, _, _, _, _, _⟩, _, _, _, _, _, _, _, _, _, _⟩ := A
  simp only [asking, Algebra.mk.injEq, InlineAlgebra.mk.injEq, true_and]
  refine ⟨⟨?_, ?_, ?_, ?_, ?_, ?_, ?_, ?_, ?_, ?_⟩, ?_, ?_, ?_, ?_, ?_, ?_, ?_, ?_, ?_, ?_⟩
  all_goals
    refine map_const_eq_self ?_
    rintro function rfl
    rfl

/-! ### One node -/

theorem getD_const {α : Type} (o : Option α) (x d : m S) :
    (o.map fun _ => x).getD d = if o.isSome then x else d := by
  cases o <;> rfl

theorem getD_const_map {α β : Type} (o : Option α) (g : β) (h : β → m S) (k : α → n S) (d : m S) :
    ((o.map fun _ => g).map h).getD d = if (o.map k).isSome then h g else d := by
  cases o <;> rfl

section Answers

variable [Monad m] (A : Algebra n S) (f : Label × List S → m S)

theorem orDefault_leafInline (node : LeafInline) :
    (A.asking f).orDefault ((A.asking f).inline.leaf node) =
      Rose.step A.asks A.defaultValue f (.leafInline node) [] := by
  cases node with
  | softBreak | lineBreak => exact getD_const ..
  | text | code | html | custom => exact getD_const_map ..

theorem orDefault_span (kind : Span) (values : List S) :
    (A.asking f).orDefault ((A.asking f).inline.span values kind) =
      Rose.step A.asks A.defaultValue f (.span kind) values := by
  cases kind <;> exact getD_const_map ..

theorem orDefault_leafBlock (node : LeafBlock) :
    (A.asking f).orDefault ((A.asking f).leaf node) =
      Rose.step A.asks A.defaultValue f (.leafBlock node) [] := by
  cases node with
  | thematicBreak => exact getD_const ..
  | codeBlock | html | custom => exact getD_const_map ..

theorem orDefault_carrier (kind : Carrier) (values : List S) :
    (A.asking f).orDefault ((A.asking f).carrier values kind) =
      Rose.step A.asks A.defaultValue f (.carrier kind) values := by
  cases kind <;> exact getD_const_map ..

theorem orDefault_list (type : ListType) (values : List S) :
    (A.asking f).orDefault ((A.asking f).list.map (· values type)) =
      Rose.step A.asks A.defaultValue f (.list type) values :=
  getD_const_map ..

theorem orDefault_quote (values : List S) :
    (A.asking f).orDefault ((A.asking f).quote.map (· values)) =
      Rose.step A.asks A.defaultValue f .quote values :=
  getD_const_map ..

theorem orDefault_item (values : List S) :
    (A.asking f).orDefault ((A.asking f).listItem.map (· values)) =
      Rose.step A.asks A.defaultValue f .item values :=
  getD_const_map ..

theorem orDefault_document (values : List S) :
    (A.asking f).orDefault ((A.asking f).document.map (· values)) =
      Rose.step A.asks A.defaultValue f .document values :=
  getD_const_map ..

end Answers

end Algebra

/-! ### The fold of a document is that of its outline -/

section Outline

variable [Monad m] (A : Algebra n S) (f : Label × List S → m S)

mutual

theorem Inline.fold_asking [LawfulMonad m] : ∀ x : Inline,
    Inline.fold (A.asking f) x = x.outline.fold (Rose.step A.asks A.defaultValue f)
  | .leaf node => by
    rw [Inline.fold, A.orDefault_leafInline, Inline.outline, Inline.rose, Rose.fold, Rose.foldAll,
      pure_bind]
    rfl
  | .span kind children => by
    rw [Inline.fold, Inline.foldAll_asking children, Inline.outline, Inline.rose, Rose.fold]
    exact bind_congr (A.orDefault_span f kind)

theorem Inline.foldAll_asking [LawfulMonad m] : ∀ xs : List Inline,
    Inline.foldAll (A.asking f) xs =
      Rose.foldAll (Rose.step A.asks A.defaultValue f) (Inline.roseAll Inline.label xs)
  | [] => rfl
  | x :: xs => by
    rw [Inline.foldAll, Inline.fold_asking x, Inline.foldAll_asking xs, Inline.roseAll,
      Rose.foldAll]

end

mutual

theorem Block.fold_asking [LawfulMonad m] : ∀ b : Block,
    Block.fold (A.asking f) b = b.outline.fold (Rose.step A.asks A.defaultValue f)
  | .leaf node => by
    rw [Block.fold, A.orDefault_leafBlock, Block.outline, Rose.fold, Rose.foldAll, pure_bind]
  | .carrier kind text => by
    rw [Block.fold, Inline.foldAll_asking, Block.outline, Rose.fold]
    exact bind_congr (A.orDefault_carrier f kind)
  | .list type items => by
    rw [Block.fold, Block.foldItems_asking items, Block.outline, Rose.fold]
    exact bind_congr (A.orDefault_list f type)
  | .quote blocks => by
    rw [Block.fold, Block.foldAll_asking blocks, Block.outline, Rose.fold]
    exact bind_congr (A.orDefault_quote f)

theorem Block.foldAll_asking [LawfulMonad m] : ∀ bs : List Block,
    Block.foldAll (A.asking f) bs =
      Rose.foldAll (Rose.step A.asks A.defaultValue f) (Block.outlineAll bs)
  | [] => rfl
  | b :: bs => by
    rw [Block.foldAll, Block.fold_asking b, Block.foldAll_asking bs, Block.outlineAll,
      Rose.foldAll]

theorem Block.foldItems_asking [LawfulMonad m] : ∀ items : List (List Block),
    Block.foldItems (A.asking f) items =
      Rose.foldAll (Rose.step A.asks A.defaultValue f) (Block.outlineItems items)
  | [] => rfl
  | item :: items => by
    rw [Block.foldItems, Block.foldAll_asking item, Block.foldItems_asking items,
      Block.outlineItems, Rose.foldAll, Rose.fold, bind_assoc]
    refine bind_congr fun values => ?_
    rw [A.orDefault_item]

end

theorem Document.fold_asking [LawfulMonad m] (doc : Document) :
    doc.fold (A.asking f) = doc.outline.fold (Rose.step A.asks A.defaultValue f) := by
  rw [Document.fold, Block.foldAll_asking, Document.outline, Rose.fold]
  exact bind_congr (A.orDefault_document f)

end Outline

/-! ### The calls of a fold -/

/-- The fold of a document by the functions that an algebra has, as a walk: it hands over the label of
a node with the values of the children. -/
def Walk.fold (A : Algebra m R) (doc : Document) : Walk (Label × List R) R R :=
  fun _ _ f => doc.fold (A.asking f)

/-- What an algebra is asked and answers about a document: for each node that it has a function for, in
post-order, the label of the node with one value for each of its children, in order, and the value for
the node. The value of a child without a function is the default value. -/
def Algebra.exchanges (A : Algebra m R) (results : Address → R) (doc : Document) :
    List ((Label × List R) × R) :=
  doc.outline.exchanges A.asks A.defaultValue results

/-- The value of a document, if its function or the default gives it. -/
def Algebra.valueOf (A : Algebra m R) (results : Address → R) (doc : Document) : R :=
  doc.outline.resultAt A.asks A.defaultValue results []

theorem Walk.tryRun_fold {ε σ : Type} (A : Algebra m R) (doc : Document)
    (f : Label × List R → Fallible ε σ R) (s : σ) :
    (Walk.fold A doc).tryRun f s =
      (Walk.foldRose A.asks A.defaultValue doc.outline).tryRun f s := by
  rw [Walk.tryRun, Walk.tryRun, Walk.fold, Walk.foldRose, Document.fold_asking]

/-- **The calls of a fold.** The nodes of a document are its blocks, the items of its lists, its inlines
and the document itself, listed in post-order. A function that the algebra has is called for the nodes of
its kind and no others: in the order of the listing, once for each, with the data of the node and the
values of its children; a node without a function has the default value, and what is in it is folded all
the same. Without an error the value is that of the document; an error is in the last call, and is that
of the fold. -/
theorem Document.fold_calls {ε σ : Type} (A : Algebra (Fallible ε σ) R) (doc : Document) (s : σ) :
    PostOrderListing doc.places doc.HasNode ∧ A.asking A.call = A ∧
    (doc.fold A).run.run s =
      (((Walk.fold A doc).tryRun A.call s).1, ((Walk.fold A doc).tryRun A.call s).2.state) ∧
    ∃ results, Walk.GoesBy A.call s ((Walk.fold A doc).tryRun A.call s) (A.exchanges results doc)
      (A.valueOf results doc) := by
  refine ⟨doc.nodeListing, A.asking_call, ?_, ?_⟩
  · have here : doc.fold A =
        Walk.foldRose A.asks A.defaultValue doc.outline (Fallible ε σ) A.call := by
      rw [Walk.foldRose, ← Document.fold_asking, A.asking_call]
    rw [here, Walk.tryRun_fold]
    exact Walk.Natural.run_eq (Walk.natural_foldRose A.asks A.defaultValue doc.outline) A.call s
  · obtain ⟨results, hgoes⟩ :=
      Walk.exists_foldRose_goesBy A.asks A.defaultValue doc.outline A.call s
    rw [Walk.tryRun_fold]
    exact ⟨results, hgoes⟩

/-- Texts, breaks and the document have no function here: none is called, and a text counts as five. -/
example :
    let A : Algebra (Fallible String Nat) Nat := {
      defaultValue := 5
      heading := some fun values level => pure (values.sum + level.toNat)
      quote := some fun values => pure values.sum }
    let doc : Document := [.quote [.heading 2 [.text "a", .text "b"]], .thematicBreak]
    ((Walk.fold A doc).tryRun A.call 0).2.calls.map Call.node =
      [(.carrier (.heading 2), [5, 5]), (.quote, [12])] :=
  rfl

end MarkdownTree
