import MarkdownTree.Proofs.Rose
import MarkdownTree.Proofs.Tree.Occurrence

/-!
The places of the inlines of a document. An inline is found by the address of the paragraph or heading
whose text it is in, and then the indices of the children to follow. Main statement:
`Document.inlineOccurrences` lists every address of an inline once, in post-order, with the inline that
is there (`Document.inlineListing`).
-/

namespace MarkdownTree

open Address

/-! ### Finding an inline -/

/-- The inline at an address inside an inline. -/
def Inline.at? : Address → Inline → Option Inline
  | [], x => some x
  | i :: p, .span _ children => children[i]?.bind (Inline.at? p)
  | _ :: _, .leaf _ => none

@[simp] theorem Inline.at?_nil (x : Inline) : Inline.at? [] x = some x := by
  rw [Inline.at?]

@[simp] theorem Inline.at?_leaf_cons (i : Nat) (p : Address) (node : LeafInline) :
    Inline.at? (i :: p) (.leaf node) = none := by
  rw [Inline.at?]

@[simp] theorem Inline.at?_span_cons (i : Nat) (p : Address) (kind : Span)
    (children : List Inline) :
    Inline.at? (i :: p) (.span kind children) = children[i]?.bind (Inline.at? p) := by
  rw [Inline.at?]

/-- The document has an inline at an address: in the text of a paragraph or heading, at the rest of the
address from there. -/
def Document.HasInline (doc : Document) (q : Address) (x : Inline) : Prop :=
  ∃ p i r kind text, q = p ++ i :: r ∧ doc.at? p = some (.carrier kind text) ∧
    text[i]?.bind (Inline.at? r) = some x

/-! ### Inlines as trees with values -/

section Rose

variable {α : Type} (f : Inline → α)

mutual

/-- An inline as a tree with a value for each inline in it. -/
def Inline.rose : Inline → Rose α
  | .leaf node => .node (f (.leaf node)) []
  | .span kind children => .node (f (.span kind children)) (Inline.roseAll children)

/-- Inlines in order, each as a tree with values. -/
def Inline.roseAll : List Inline → List (Rose α)
  | [] => []
  | x :: xs => Inline.rose x :: Inline.roseAll xs

end

theorem Inline.roseAll_eq_map (xs : List Inline) : Inline.roseAll f xs = xs.map (Inline.rose f) := by
  induction xs with
  | nil => rfl
  | cons x xs ih => rw [Inline.roseAll, ih, List.map_cons]

theorem Inline.value_rose (x : Inline) : (x.rose f).value = f x := by
  cases x <;> rfl

theorem Inline.at?_rose : ∀ (p : Address) (x : Inline),
    Rose.at? p (x.rose f) = (Inline.at? p x).map (Inline.rose f)
  | [], x => by simp
  | i :: p, .leaf node => by
    rw [Inline.at?_leaf_cons, Inline.rose]
    rfl
  | i :: p, .span kind children => by
    rw [Inline.at?_span_cons, Inline.rose, Rose.at?_cons, Inline.roseAll_eq_map, List.getElem?_map]
    cases children[i]? with
    | none => rfl
    | some x => exact Inline.at?_rose p x

theorem Inline.bind_at?_roseAll (xs : List Inline) (k : Nat) (r : Address) :
    (Inline.roseAll f xs)[k]?.bind (Rose.at? r) =
      (xs[k]?.bind (Inline.at? r)).map (Inline.rose f) := by
  rw [Inline.roseAll_eq_map, List.getElem?_map]
  cases xs[k]? with
  | none => rfl
  | some x => exact Inline.at?_rose f r x

end Rose

/-! ### Listing all inlines -/

/-- The inlines of inlines in order, the first of which has a given index under an address. -/
def Inline.occurrencesAll (p : Address) (i : Nat) (xs : List Inline) : List (Address × Inline) :=
  (Rose.placesAll p i (Inline.roseAll id xs)).map fun o => (o.1, o.2.value)

def Block.text : Block → List Inline
  | .carrier _ text => text
  | .leaf _ | .list .. | .quote _ => []

/-- All inlines of a document with their addresses, in post-order. -/
def Document.inlineOccurrences (doc : Document) : List (Address × Inline) :=
  doc.occurrences.flatMap fun o => Inline.occurrencesAll o.1 0 o.2.text

/-! ### The listing is complete -/

theorem Inline.mem_occurrencesAll {q : Address} {x : Inline} (p : Address) (i : Nat)
    (xs : List Inline) : (q, x) ∈ Inline.occurrencesAll p i xs ↔
      ∃ k r, q = p ++ (i + k) :: r ∧ xs[k]?.bind (Inline.at? r) = some x := by
  rw [Inline.occurrencesAll, List.mem_map]
  constructor
  · rintro ⟨⟨q', t⟩, hmem, heq⟩
    obtain ⟨rfl, rfl⟩ := Prod.mk.inj heq
    obtain ⟨k, r, rfl, h⟩ := (Rose.mem_placesAll p i _).mp hmem
    rw [Inline.bind_at?_roseAll, Option.map_eq_some_iff] at h
    obtain ⟨y, hy, rfl⟩ := h
    exact ⟨k, r, rfl, by rw [hy, Inline.value_rose, id]⟩
  · rintro ⟨k, r, rfl, h⟩
    refine ⟨(p ++ (i + k) :: r, x.rose id), ?_, by rw [Inline.value_rose, id]⟩
    refine (Rose.mem_placesAll p i _).mpr ⟨k, r, rfl, ?_⟩
    rw [Inline.bind_at?_roseAll, h, Option.map_some]

theorem Document.mem_inlineOccurrences {doc : Document} {q : Address} {x : Inline} :
    (q, x) ∈ doc.inlineOccurrences ↔ doc.HasInline q x := by
  rw [Document.inlineOccurrences, List.mem_flatMap]
  constructor
  · rintro ⟨⟨p, b⟩, hb, hx⟩
    obtain ⟨i, r, rfl, h⟩ := (Inline.mem_occurrencesAll p 0 _).mp hx
    cases b with
    | carrier kind text =>
      exact ⟨p, i, r, kind, text, by simp, Document.mem_occurrences.mp hb, h⟩
    | leaf | list | quote => simp [Block.text] at h
  · rintro ⟨p, i, r, kind, text, rfl, hb, h⟩
    refine ⟨(p, .carrier kind text), Document.mem_occurrences.mpr hb, ?_⟩
    exact (Inline.mem_occurrencesAll p 0 text).mpr ⟨i, r, by simp, h⟩

/-! ### The listing is in post-order -/

theorem Block.at?_append : ∀ (p : Address) {q : Address} {b c : Block}, Block.at? p b = some c →
    Block.at? (p ++ q) b = Block.at? q c
  | [], q, b, c, h => by
    rw [Block.at?_nil] at h
    obtain rfl := Option.some.inj h
    rfl
  | i :: p, q, .quote blocks, c, h => by
    obtain ⟨b, hb, hc⟩ := Option.bind_eq_some_iff.mp h
    rw [List.cons_append, Block.at?_quote_cons, hb]
    exact Block.at?_append p hc
  | [i], q, .list type items, c, h => by simp at h
  | i :: j :: p, q, .list type items, c, h => by
    obtain ⟨b, hb, hc⟩ := Option.bind_eq_some_iff.mp h
    rw [List.cons_append, List.cons_append, Block.at?_list_cons_cons, hb]
    exact Block.at?_append p hc
  | i :: p, q, .leaf node, c, h => by simp at h
  | i :: p, q, .carrier kind text, c, h => by simp at h

theorem Document.at?_append {doc : Document} {p : Address} {b : Block} (h : doc.at? p = some b)
    (q : Address) : doc.at? (p ++ q) = Block.at? q b := by
  cases p with
  | nil => cases h
  | cons i p =>
    obtain ⟨c, hc, hb⟩ := Option.bind_eq_some_iff.mp h
    rw [List.cons_append, Document.at?, hc, Option.bind_some, Block.at?_append p hb]

/-- Nothing is inside a paragraph or heading. -/
theorem Document.not_inside_carrier {doc : Document} {p q : Address} {b : Block} {kind : Carrier}
    {text : List Inline} (hp : doc.at? p = some b) (hq : doc.at? q = some (.carrier kind text)) :
    ¬ p.Inside q := by
  rintro ⟨⟨r, rfl⟩, hne⟩
  obtain _ | ⟨k, r⟩ := r
  · exact hne (List.append_nil q)
  · rw [Document.at?_append hq, Block.at?_carrier_cons] at hp
    cases hp

theorem Inline.pairwise_occurrencesAll (p : Address) (i : Nat) (xs : List Inline) :
    (Inline.occurrencesAll p i xs).Pairwise fun o o' => o.1.PostOrder o'.1 :=
  List.pairwise_map.mpr (Rose.pairwise_placesAll p i _)

theorem Document.pairwise_inlineOccurrences (doc : Document) :
    doc.inlineOccurrences.Pairwise fun o o' => o.1.PostOrder o'.1 := by
  refine List.pairwise_flatMap.mpr ⟨fun o _ => Inline.pairwise_occurrencesAll o.1 0 o.2.text, ?_⟩
  refine (List.pairwise_map.mp doc.pairwise_occurrences).imp_of_mem ?_
  rintro ⟨p, b⟩ ⟨q, c⟩ hb hc hpq ⟨p', x⟩ hx ⟨q', y⟩ hy
  obtain ⟨i, r, rfl, -⟩ := (Inline.mem_occurrencesAll p 0 _).mp hx
  obtain ⟨j, s, rfl, hj⟩ := (Inline.mem_occurrencesAll q 0 _).mp hy
  cases c with
  | carrier kind text =>
    -- the text of one block is wholly before that of another
    have hb := Document.mem_occurrences.mp hb
    have hc := Document.mem_occurrences.mp hc
    have hleft := hpq.resolve_left (Document.not_inside_carrier hb hc)
    exact .inr (hleft.append _ _)
  | leaf | list | quote => simp [Block.text] at hj

theorem Document.inlineListing (doc : Document) :
    PostOrderListing doc.inlineOccurrences doc.HasInline :=
  .of_pairwise (fun _ _ => Document.mem_inlineOccurrences)
    (List.pairwise_map.mpr doc.pairwise_inlineOccurrences)

theorem Document.blockListing (doc : Document) :
    PostOrderListing doc.occurrences fun p b => doc.at? p = some b :=
  .of_pairwise (fun _ _ => Document.mem_occurrences) doc.pairwise_occurrences

/-! ### Children and parents -/

theorem Inline.at?_append : ∀ (p q : Address) (x : Inline),
    Inline.at? (p ++ q) x = (Inline.at? p x).bind (Inline.at? q)
  | [], q, x => by
    rw [Inline.at?_nil]
    rfl
  | i :: p, q, .leaf node => by
    rw [List.cons_append, Inline.at?_leaf_cons, Inline.at?_leaf_cons]
    rfl
  | i :: p, q, .span kind children => by
    rw [List.cons_append, Inline.at?_span_cons, Inline.at?_span_cons, Option.bind_assoc]
    congr 1
    funext x
    exact Inline.at?_append p q x

namespace Document

variable {doc : Document} {q : Address} {x y : Inline}

theorem HasInline.unique (hx : doc.HasInline q x) (hy : doc.HasInline q y) : x = y :=
  doc.inlineListing.unique hx hy

theorem hasInline_top {p : Address} {i : Nat} {kind : Carrier} {text : List Inline}
    (hb : doc.at? p = some (.carrier kind text)) (hx : text[i]? = some x) :
    doc.HasInline (p ++ [i]) x :=
  ⟨p, i, [], kind, text, rfl, hb, by rw [hx, Option.bind_some, Inline.at?_nil]⟩

theorem HasInline.child {kind : Span} {children : List Inline} {i : Nat}
    (h : doc.HasInline q (.span kind children)) (hx : children[i]? = some x) :
    doc.HasInline (q ++ [i]) x := by
  obtain ⟨p, j, r, carrier, text, rfl, hb, hspan⟩ := h
  obtain ⟨top, htop, hr⟩ := Option.bind_eq_some_iff.mp hspan
  refine ⟨p, j, r ++ [i], carrier, text, by simp, hb, ?_⟩
  rw [htop, Option.bind_some, Inline.at?_append, hr, Option.bind_some, Inline.at?_span_cons, hx,
    Option.bind_some, Inline.at?_nil]

/-- An inline is in the text of a paragraph or heading, or a child of another inline. -/
theorem HasInline.parent (h : doc.HasInline q x) :
    (∃ p i kind text, q = p ++ [i] ∧ doc.at? p = some (.carrier kind text) ∧
      text[i]? = some x) ∨
    ∃ p i kind children, q = p ++ [i] ∧ doc.HasInline p (.span kind children) ∧
      children[i]? = some x := by
  obtain ⟨p, i, r, carrier, text, rfl, hb, hx⟩ := h
  obtain ⟨top, htop, hr⟩ := Option.bind_eq_some_iff.mp hx
  rcases List.eq_nil_or_concat r with rfl | ⟨r, j, hconcat⟩
  · rw [Inline.at?_nil] at hr
    exact .inl ⟨p, i, carrier, text, rfl, hb, htop.trans hr⟩
  · rw [List.concat_eq_append] at hconcat
    subst hconcat
    rw [Inline.at?_append] at hr
    obtain ⟨parent, hparent, hj⟩ := Option.bind_eq_some_iff.mp hr
    cases parent with
    | leaf node => simp at hj
    | span kind children =>
      rw [Inline.at?_span_cons] at hj
      obtain ⟨child, hchild, hx⟩ := Option.bind_eq_some_iff.mp hj
      rw [Inline.at?_nil] at hx
      refine .inr ⟨p ++ i :: r, j, kind, children, by simp, ?_, hchild.trans hx⟩
      exact ⟨p, i, r, carrier, text, rfl, hb, by rw [htop, Option.bind_some, hparent]⟩

/-- No inline has the address of a paragraph or heading. -/
theorem not_hasInline_carrier {kind : Carrier} {text : List Inline}
    (hb : doc.at? q = some (.carrier kind text)) : ¬ doc.HasInline q x := by
  rintro ⟨p, i, r, carrier, text', rfl, hp, -⟩
  rw [Document.at?_append hp, Block.at?_carrier_cons] at hb
  cases hb

end Document

end MarkdownTree
