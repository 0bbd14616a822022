import MarkdownTree.Proofs.Tree.Every

/-!
Documents in normal form: links and images have a url, an image holds its alternative text and nothing
else, and a text is a line, not empty. The conditions are about all inlines of a document with their
places; `Document.readable_iff` has them node by node instead.
-/

namespace MarkdownTree

namespace Document

/-- The address is that of a child of an image. -/
def InImage (doc : Document) (q : Address) : Prop :=
  ∃ p i target children, q = p ++ [i] ∧ doc.HasInline p (.span (.image target) children)

/-- The normal form of documents. An alternative text is kept as it is, with its newlines. -/
structure Normal (doc : Document) : Prop where
  linkUrl : ∀ q target children, doc.HasInline q (.span (.link target) children) →
    target.url.isSome
  imageUrl : ∀ q target children, doc.HasInline q (.span (.image target) children) →
    target.url.isSome
  imageAlt : ∀ q target children, doc.HasInline q (.span (.image target) children) →
    children = [] ∨ ∃ literal, children = [.text literal]
  textNonempty : ∀ q literal, doc.HasInline q (.text literal) → literal ≠ ""
  textUnbroken : ∀ q literal, doc.HasInline q (.text literal) → ¬ doc.InImage q →
    '\n' ∉ literal.toList

/-- Neither a block nor an inline is custom. -/
def WithoutCustom (doc : Document) : Prop :=
  (∀ p literal, doc.at? p ≠ some (.custom literal)) ∧
    ∀ q literal, ¬ doc.HasInline q (.custom literal)

end Document

/-! ### Node by node -/

/-- The inline is no text with a newline. -/
def Inline.Unbroken (x : Inline) : Prop := ∀ literal, x = .text literal → '\n' ∉ literal.toList

/-- What the normal form asks of an inline with its children. Custom ones may be allowed or not. -/
def Inline.Readable (custom : Bool) : Inline → Prop
  | .text literal => literal ≠ ""
  | .custom _ => custom = true
  | .softBreak | .lineBreak | .code _ | .html _ => True
  | .span .emphasis children | .span .strong children => ∀ x ∈ children, x.Unbroken
  | .span (.link target) children => target.url.isSome ∧ ∀ x ∈ children, x.Unbroken
  | .span (.image target) children =>
    target.url.isSome ∧ (children = [] ∨ ∃ literal, children = [.text literal])

/-- Inlines that are not in an image. -/
def Inline.ReadableFlow (custom : Bool) (xs : List Inline) : Prop :=
  ∀ x ∈ xs, x.Every (Inline.Readable custom) ∧ x.Unbroken

/-- What the normal form asks of a block, the blocks in it aside. -/
def Block.Readable (custom : Bool) : Block → Prop
  | .custom _ => custom = true
  | .carrier _ text => Inline.ReadableFlow custom text
  | .codeBlock .. | .html _ | .thematicBreak | .list .. | .quote _ => True

variable {custom : Bool}

theorem Inline.readableFlow_append {xs ys : List Inline} :
    Inline.ReadableFlow custom (xs ++ ys) ↔
      Inline.ReadableFlow custom xs ∧ Inline.ReadableFlow custom ys :=
  List.forall_mem_append

theorem Inline.readableFlow_singleton {x : Inline} :
    Inline.ReadableFlow custom [x] ↔ x.Every (Inline.Readable custom) ∧ x.Unbroken :=
  List.forall_mem_singleton

theorem Inline.ReadableFlow.every {xs : List Inline} (h : Inline.ReadableFlow custom xs) :
    Inline.EveryOf (Inline.Readable custom) xs :=
  Inline.everyOf_iff.mpr fun x hx => (h x hx).1

theorem Inline.ReadableFlow.unbroken {xs : List Inline} (h : Inline.ReadableFlow custom xs) :
    ∀ x ∈ xs, x.Unbroken := fun x hx => (h x hx).2

theorem Inline.readableFlow_iff {xs : List Inline} :
    Inline.ReadableFlow custom xs ↔
      Inline.EveryOf (Inline.Readable custom) xs ∧ ∀ x ∈ xs, x.Unbroken :=
  ⟨fun h => ⟨h.every, h.unbroken⟩, fun h x hx => ⟨Inline.everyOf_iff.mp h.1 x hx, h.2 x hx⟩⟩

/-! ### The two forms agree -/

namespace Document

variable {doc : Document}

/-- A document node by node, its blocks and its inlines apart. -/
theorem everyReadable_iff :
    Block.EveryOf (Block.Readable custom) doc ↔
      (∀ p literal, doc.at? p = some (.custom literal) → custom = true) ∧
      (∀ p kind text, doc.at? p = some (.carrier kind text) → ∀ x ∈ text, x.Unbroken) ∧
      ∀ q x, doc.HasInline q x → x.Readable custom := by
  rw [← everyInline_iff, everyOf_iff, everyOf_iff]
  constructor
  · intro h
    refine ⟨fun p literal hb => h p _ hb, fun p kind text hb => (h p _ hb).unbroken, ?_⟩
    intro p b hb
    cases b with
    | carrier kind text => exact (h p _ hb).every
    | leaf | list | quote => trivial
  · rintro ⟨blocks, texts, inlines⟩ p b hb
    cases b with
    | carrier kind text => exact Inline.readableFlow_iff.mpr ⟨inlines p _ hb, texts p kind text hb⟩
    | leaf node =>
      cases node with
      | custom literal => exact blocks p literal hb
      | _ => trivial
    | list | quote => trivial

/-- The text of a paragraph or heading is in no image. -/
theorem not_inImage_top {p : Address} {i : Nat} {kind : Carrier} {text : List Inline}
    (hb : doc.at? p = some (.carrier kind text)) : ¬ doc.InImage (p ++ [i]) := by
  rintro ⟨p', j, target, children, heq, himage⟩
  obtain ⟨rfl, -⟩ := List.append_inj' heq rfl
  exact not_hasInline_carrier hb himage

/-- The children of other spans are in no image. -/
theorem not_inImage_child {p : Address} {i : Nat} {kind : Span} {children : List Inline}
    (h : doc.HasInline p (.span kind children)) (hkind : ∀ target, kind ≠ .image target) :
    ¬ doc.InImage (p ++ [i]) := by
  rintro ⟨p', j, target, children', heq, himage⟩
  obtain ⟨rfl, -⟩ := List.append_inj' heq rfl
  exact hkind target (Inline.span.inj (h.unique himage)).1

/-- A text that has a place outside of images has no newline. -/
theorem unbroken_of_readable
    (texts : ∀ p kind text, doc.at? p = some (.carrier kind text) → ∀ x ∈ text, x.Unbroken)
    (inlines : ∀ q x, doc.HasInline q x → x.Readable custom) {q : Address} {x : Inline}
    (h : doc.HasInline q x) (hout : ¬ doc.InImage q) : x.Unbroken := by
  rcases h.parent with ⟨p, i, kind, text, rfl, hb, hx⟩ | ⟨p, i, kind, children, rfl, hp, hx⟩
  · exact texts p kind text hb x (List.mem_of_getElem? hx)
  · have readable := inlines p _ hp
    have hmem := List.mem_of_getElem? hx
    cases kind with
    | emphasis | strong => exact readable x hmem
    | link target => exact readable.2 x hmem
    | image target => exact absurd ⟨p, i, target, children, rfl, hp⟩ hout

theorem Normal.unbroken_text (normal : doc.Normal) {p : Address} {kind : Carrier}
    {text : List Inline} (hb : doc.at? p = some (.carrier kind text)) :
    ∀ x ∈ text, x.Unbroken := by
  rintro x hx literal rfl
  obtain ⟨i, hi⟩ := List.getElem?_of_mem hx
  exact normal.textUnbroken _ literal (hasInline_top hb hi) (not_inImage_top hb)

theorem Normal.unbroken_children (normal : doc.Normal) {p : Address} {kind : Span}
    {children : List Inline} (h : doc.HasInline p (.span kind children))
    (hkind : ∀ target, kind ≠ .image target) : ∀ x ∈ children, x.Unbroken := by
  rintro x hx literal rfl
  obtain ⟨i, hi⟩ := List.getElem?_of_mem hx
  exact normal.textUnbroken _ literal (h.child hi) (not_inImage_child h hkind)

theorem readable_iff :
    Block.EveryOf (Block.Readable custom) doc ↔
      doc.Normal ∧ (custom = false → doc.WithoutCustom) := by
  rw [everyReadable_iff]
  constructor
  · rintro ⟨blocks, texts, inlines⟩
    refine ⟨⟨?_, ?_, ?_, ?_, ?_⟩, ?_⟩
    · exact fun q target children h => (inlines q _ h).1
    · exact fun q target children h => (inlines q _ h).1
    · exact fun q target children h => (inlines q _ h).2
    · exact fun q literal h => inlines q _ h
    · exact fun q literal h hout => unbroken_of_readable texts inlines h hout literal rfl
    · rintro rfl
      exact ⟨fun p literal hb => Bool.noConfusion (blocks p literal hb),
        fun q literal h => Bool.noConfusion (inlines q _ h)⟩
  · rintro ⟨normal, withoutCustom⟩
    have custom_of {P : Prop} (hne : doc.WithoutCustom → ¬ P) (h : P) : custom = true := by
      cases custom with
      | true => rfl
      | false => exact absurd h (hne (withoutCustom rfl))
    refine ⟨fun p literal => custom_of fun h => h.1 p literal,
      fun p kind text hb => normal.unbroken_text hb, ?_⟩
    intro q x h
    cases x with
    | leaf node =>
      cases node with
      | text literal => exact normal.textNonempty q literal h
      | custom literal => exact custom_of (fun hc => hc.2 q literal) h
      | _ => trivial
    | span kind children =>
      cases kind with
      | emphasis | strong => exact normal.unbroken_children h nofun
      | link target =>
        exact ⟨normal.linkUrl q target children h, normal.unbroken_children h nofun⟩
      | image target =>
        exact ⟨normal.imageUrl q target children h, normal.imageAlt q target children h⟩

end Document

end MarkdownTree
