import MarkdownTree.Proofs.Tree.Frame
import MarkdownTree.Proofs.Tree.Unwrap

/-!
Numbering links. In one replacing each link is taken apart and a marker with its number is put behind what
was in it. The leaves of a document, with a gap for each link, make a row, and the numbering fills the gaps
of the row one after the other, however the links are nested and wherever the texts are. The proof follows
the counter along the walk. Main statement: `Document.numbering_inOrder`.
-/

namespace MarkdownTree

/-! ### Relations along a replacing -/

/-- The relation holds between a state, inlines in a row, what a replacing by `f` makes of them from this
state, and the state that it leaves. It does if it holds at each step of the walk. -/
structure Threads {σ : Type} (f : Inline → StateM σ (List Inline))
    (R : σ → List Inline → List Inline → σ → Prop) : Prop where
  nil (s : σ) : R s [] [] s
  append {s s' s'' : σ} {xs xs' ys ys' : List Inline} :
    R s xs ys s' → R s' xs' ys' s'' → R s (xs ++ xs') (ys ++ ys') s''
  leaf (node : LeafInline) (s : σ) :
    R s [.leaf node] ((f (.leaf node)).run s).1 ((f (.leaf node)).run s).2
  /-- The function is called on the span with what has taken the places of its children. -/
  span (kind : Span) {s s' : σ} {xs ys : List Inline} : R s xs ys s' →
    R s [.span kind xs] ((f (.span kind ys)).run s').1 ((f (.span kind ys)).run s').2

section Threads

variable {σ : Type} {f : Inline → StateM σ (List Inline)}
  {R : σ → List Inline → List Inline → σ → Prop}

mutual

theorem Inline.threads_replace (h : Threads f R) : ∀ (x : Inline) (s : σ),
    R s [x] ((Inline.replace f x).run s).1 ((Inline.replace f x).run s).2
  | .leaf node, s => h.leaf node s
  | .span kind children, s => h.span kind (Inline.threads_replaceAll h children s)

theorem Inline.threads_replaceAll (h : Threads f R) : ∀ (xs : List Inline) (s : σ),
    R s xs ((Inline.replaceAll f xs).run s).1 ((Inline.replaceAll f xs).run s).2
  | [], s => h.nil s
  | x :: xs, s =>
    h.append (Inline.threads_replace h x s)
      (Inline.threads_replaceAll h xs ((Inline.replace f x).run s).2)

end

/-- Texts are worked on one after the other. -/
theorem threads_mapM (h : Threads f R) (texts : List (List Inline)) (s : σ) :
    R s texts.flatten ((texts.mapM (collectEach (Inline.replace f))).run s).1.flatten
      ((texts.mapM (collectEach (Inline.replace f))).run s).2 := by
  have each : collectEach (Inline.replace f) = Inline.replaceAll f :=
    funext fun text => (Inline.replaceAll_eq f text).symm
  rw [each]
  induction texts generalizing s with
  | nil => exact h.nil s
  | cons text texts ih =>
    rw [List.mapM_cons]
    exact h.append (Inline.threads_replaceAll h text s) (ih _)

/-- The relation holds between the texts of a document as they were and as they have become, each in a row. -/
theorem Document.threads_replaceInlines (h : Threads f R) (doc : Document) (s : σ) :
    R s doc.texts.flatten ((doc.replaceInlines f).run s).1.texts.flatten
      ((doc.replaceInlines f).run s).2 := by
  -- The walk and the run over its texts agree in frame, texts and state; the frame is of no use here.
  have parts := congrArg (fun x => x.run s) (doc.frame_texts_replaceInlines f)
  have texts : ((doc.replaceInlines f).run s).1.texts =
      ((doc.texts.mapM (collectEach (Inline.replace f))).run s).1 := congrArg (fun r => r.1.2) parts
  have state : ((doc.replaceInlines f).run s).2 =
      ((doc.texts.mapM (collectEach (Inline.replace f))).run s).2 := congrArg Prod.snd parts
  rw [texts, state]
  exact threads_mapM h doc.texts s

end Threads

/-! ### Collecting from texts in a row -/

section Collect

variable {α : Type}

mutual

theorem Block.collectedTexts_eq (g : List Inline → List α) : ∀ b : Block,
    b.collectedTexts g = b.texts.flatMap g
  | .leaf node => rfl
  | .carrier kind text => (List.append_nil (g text)).symm
  | .list type items => by
    rw [collectedTexts_list, Block.collectedTextsItems_eq g items, texts]
  | .quote blocks => by
    rw [collectedTexts_quote, Block.collectedTextsAll_eq g blocks, texts]

theorem Block.collectedTextsAll_eq (g : List Inline → List α) : ∀ bs : List Block,
    bs.flatMap (Block.collectedTexts g) = (Block.textsAll bs).flatMap g
  | [] => rfl
  | b :: bs => by
    rw [List.flatMap_cons, Block.collectedTexts_eq g b, Block.collectedTextsAll_eq g bs, textsAll,
      List.flatMap_append]

theorem Block.collectedTextsItems_eq (g : List Inline → List α) : ∀ items : List (List Block),
    (items.flatMap fun item => item.flatMap (Block.collectedTexts g)) =
      (Block.textsItems items).flatMap g
  | [] => rfl
  | item :: items => by
    rw [List.flatMap_cons, Block.collectedTextsAll_eq g item, Block.collectedTextsItems_eq g items,
      textsItems, List.flatMap_append]

end

/-- Collecting goes through the texts as through one text. -/
theorem Document.collectedInlines_eq_texts (c : Inline → List α) (doc : Document) :
    doc.collectedInlines c = doc.texts.flatten.flatMap (Inline.collected c) := by
  rw [Document.collectedInlines_eq, Block.collectedTextsAll_eq, ← List.flatMap_id, List.flatMap_assoc]
  rfl

theorem Inline.flatMap_collected_span (c : Inline → List α) (kind : Span) (children : List Inline) :
    [Inline.span kind children].flatMap (Inline.collected c) =
      children.flatMap (Inline.collected c) ++ c (.span kind children) := by
  rw [List.flatMap_singleton, Inline.collected_span]

end Collect

/-! ### Rows with gaps -/

/-- A leaf itself, and a gap for a link. -/
def Inline.ownMark : Inline → List (Option LeafInline)
  | .leaf node => [some node]
  | .span (.link _) _ => [none]
  | .span .. => []

/-- A row with its gaps filled by markers, which are numbered on from a number. -/
def filled (marker : Nat → String) : Nat → List (Option LeafInline) → List LeafInline
  | _, [] => []
  | k, some node :: row => node :: filled marker k row
  | k, none :: row => .html (marker (k + 1)) :: filled marker (k + 1) row

/-- The literal of a piece of html. -/
def LeafInline.html? : LeafInline → Option String
  | .html literal => some literal
  | _ => none

section Filled

variable (marker : Nat → String) (k : Nat) {row : List (Option LeafInline)}

theorem filled_append (row row' : List (Option LeafInline)) :
    filled marker k (row ++ row') =
      filled marker k row ++ filled marker (k + row.count none) row' := by
  induction row generalizing k with
  | nil => rfl
  | cons mark row ih =>
    cases mark with
    | some node => simp [filled, ih]
    | none => simp [filled, ih, Nat.add_assoc, Nat.add_comm 1]

/-- The markers are the only html in a row that had none, and are in it in order. -/
theorem filterMap_html?_filled (plain : ∀ node, some node ∈ row → node.html? = none) :
    (filled marker k row).filterMap LeafInline.html? =
      (List.range' (k + 1) (row.count none)).map marker := by
  induction row generalizing k with
  | nil => rfl
  | cons mark row ih =>
    have later := fun k => ih k fun node hnode => plain node (List.mem_cons_of_mem mark hnode)
    cases mark with
    | some node =>
      have here := plain node List.mem_cons_self
      rw [filled, List.filterMap_cons_none here, later, List.count_cons_of_ne (Option.some_ne_none node)]
    | none =>
      have here : (LeafInline.html (marker (k + 1))).html? = some (marker (k + 1)) := rfl
      rw [filled, List.filterMap_cons_some here, later, List.count_cons_self, List.range'_succ,
        List.map_cons]

/-- The rest of the row is what it was. -/
theorem filter_filled (plain : ∀ node, some node ∈ row → node.html? = none) :
    (filled marker k row).filter (fun node => node.html?.isNone) = row.filterMap id := by
  induction row generalizing k with
  | nil => rfl
  | cons mark row ih =>
    have later := fun k => ih k fun node hnode => plain node (List.mem_cons_of_mem mark hnode)
    cases mark with
    | some node =>
      have here := plain node List.mem_cons_self
      rw [filled, List.filter_cons_of_pos (by rw [here]; rfl), later]
      rfl
    | none =>
      rw [filled, List.filter_cons_of_neg Bool.false_ne_true, later]
      rfl

end Filled

/-! ### Numbering -/

/-- Takes a link apart and puts the marker for its number behind what was in it; keeps any other inline. The
number is one more than that of the link before. -/
def Inline.numberLink (marker : Nat → String) : Inline → StateM Nat (List Inline)
  | .span (.link _) children => do
    modify (· + 1)
    let number ← get
    pure (children ++ [.html (marker number)])
  | x => pure [x]

/-- A link itself. -/
def Inline.ownLink (x : Inline) : List Inline := if isLink x then [x] else []

/-- The literal of an html inline. -/
def Inline.ownHtml : Inline → List String
  | .html literal => [literal]
  | _ => []

/-- What numbering makes of inlines in a row, where `k` links have been numbered before. -/
structure Numbered (marker : Nat → String) (k : Nat) (xs ys : List Inline) (k' : Nat) : Prop where
  count : k' = k + (xs.flatMap (Inline.collected Inline.ownMark)).count none
  leaves : ys.flatMap (Inline.collected Inline.ownLeaf) =
    filled marker k (xs.flatMap (Inline.collected Inline.ownMark))
  unlinked : ys.flatMap (Inline.collected Inline.ownLink) = []

section Numbered

variable {marker : Nat → String} {k k' k'' : Nat} {xs xs' ys ys' : List Inline}

theorem Numbered.append (h : Numbered marker k xs ys k') (h' : Numbered marker k' xs' ys' k'') :
    Numbered marker k (xs ++ xs') (ys ++ ys') k'' := by
  obtain ⟨rfl, leaves, unlinked⟩ := h
  obtain ⟨rfl, leaves', unlinked'⟩ := h'
  refine ⟨?_, ?_, ?_⟩
  · rw [List.flatMap_append, List.count_append, Nat.add_assoc]
  · rw [List.flatMap_append, List.flatMap_append, filled_append, leaves, leaves']
  · rw [List.flatMap_append, unlinked, unlinked', List.append_nil]

/-- The links in a link have their numbers before it, and its marker comes behind theirs. -/
theorem Numbered.link (h : Numbered marker k xs ys k') (target : Target) :
    Numbered marker k [.span (.link target) xs] (ys ++ [.html (marker (k' + 1))]) (k' + 1) := by
  obtain ⟨rfl, leaves, unlinked⟩ := h
  refine ⟨?_, ?_, ?_⟩
  · rw [Inline.flatMap_collected_span, List.count_append]
    rfl
  · rw [Inline.flatMap_collected_span, List.flatMap_append, leaves, filled_append]
    rfl
  · rw [List.flatMap_append, unlinked]
    rfl

theorem Numbered.keep (h : Numbered marker k xs ys k') {kind : Span}
    (noGap : ∀ zs, (Inline.span kind zs).ownMark = [])
    (noLink : ∀ zs, (Inline.span kind zs).ownLink = []) :
    Numbered marker k [.span kind xs] [.span kind ys] k' := by
  obtain ⟨rfl, leaves, unlinked⟩ := h
  refine ⟨?_, ?_, ?_⟩
  · rw [Inline.flatMap_collected_span, noGap, List.append_nil]
  · rw [Inline.flatMap_collected_span, Inline.flatMap_collected_span, noGap, List.append_nil, leaves]
    exact List.append_nil _
  · rw [Inline.flatMap_collected_span, noLink, List.append_nil, unlinked]

theorem threads_numbered (marker : Nat → String) :
    Threads (Inline.numberLink marker) (Numbered marker) where
  nil k := ⟨rfl, rfl, rfl⟩
  append := Numbered.append
  leaf node k := ⟨rfl, rfl, rfl⟩
  span kind {k k' xs ys} h := by
    cases kind with
    | link target => exact h.link target
    | emphasis | strong | image => exact h.keep (fun _ => rfl) fun _ => rfl

end Numbered

namespace Document

/-- The leaves of the texts of a document, with a gap for each link. -/
def markRow (doc : Document) : List (Option LeafInline) := doc.collectedInlines Inline.ownMark

/-- Numbering counts the gaps and fills them, and leaves no link. -/
theorem numbered (marker : Nat → String) (doc : Document) :
    let after := (doc.replaceInlines (Inline.numberLink marker)).run 0
    after.2 = doc.markRow.count none ∧
    after.1.leafInlines = filled marker 0 doc.markRow ∧
    after.1.collectedInlines Inline.ownLink = [] := by
  obtain ⟨count, leaves, unlinked⟩ := doc.threads_replaceInlines (threads_numbered marker) 0
  simp only [leafInlines, markRow, collectedInlines_eq_texts]
  exact ⟨count.trans (Nat.zero_add _), leaves, unlinked⟩

/-! ### What the row tells -/

theorem filterMap_collectedInlines {α β : Type} (g : α → Option β) (c : Inline → List α)
    (doc : Document) :
    (doc.collectedInlines c).filterMap g = doc.collectedInlines fun x => (c x).filterMap g := by
  rw [collectedInlines_eq_flatMap, collectedInlines_eq_flatMap, List.filterMap_flatMap]

/-- There is one gap for each link. -/
theorem count_markRow (doc : Document) :
    doc.markRow.count none = (doc.filteredInlines isLink).length := by
  have each (x : Inline) : x.ownMark.count none = x.ownLink.length := by
    rcases x with node | ⟨_ | _ | _ | _, children⟩ <;> rfl
  have links : doc.filteredInlines isLink = doc.collectedInlines Inline.ownLink := rfl
  rw [links, markRow, collectedInlines_eq_flatMap, collectedInlines_eq_flatMap, List.count_flatMap,
    List.length_flatMap]
  exact congrArg List.sum (List.map_congr_left fun x _ => each x)

/-- The row without its gaps. -/
theorem filterMap_markRow (doc : Document) : doc.markRow.filterMap id = doc.leafInlines := by
  have each (x : Inline) : x.ownMark.filterMap id = x.ownLeaf := by
    rcases x with node | ⟨_ | _ | _ | _, children⟩ <;> rfl
  rw [markRow, filterMap_collectedInlines, leafInlines, funext each]

theorem mem_leafInlines {doc : Document} {node : LeafInline} :
    node ∈ doc.leafInlines ↔ ∃ q, doc.HasInline q (.leaf node) := by
  rw [leafInlines, collectedInlines_eq_flatMap, List.mem_flatMap]
  constructor
  · rintro ⟨x, hx, own⟩
    obtain ⟨⟨q, y⟩, found, rfl⟩ := List.mem_map.mp hx
    cases y with
    | leaf node' =>
      obtain rfl := List.mem_singleton.mp own
      exact ⟨q, mem_inlineOccurrences.mp found⟩
    | span kind children => cases own
  · rintro ⟨q, found⟩
    exact ⟨.leaf node, List.mem_map.mpr ⟨_, mem_inlineOccurrences.mpr found, rfl⟩,
      List.mem_singleton_self node⟩

theorem html?_of_mem_markRow {doc : Document} (plain : ∀ q literal, ¬ doc.HasInline q (.html literal))
    {node : LeafInline} (h : some node ∈ doc.markRow) : node.html? = none := by
  have leaf : node ∈ doc.leafInlines := by
    rw [← filterMap_markRow]
    exact List.mem_filterMap.mpr ⟨some node, h, rfl⟩
  obtain ⟨q, found⟩ := mem_leafInlines.mp leaf
  cases node with
  | html literal => exact absurd found (plain q literal)
  | _ => rfl

/-- The html that is collected is that among the leaves. -/
theorem collectedInlines_ownHtml (doc : Document) :
    doc.collectedInlines Inline.ownHtml = doc.leafInlines.filterMap LeafInline.html? := by
  have each (x : Inline) : x.ownLeaf.filterMap LeafInline.html? = x.ownHtml := by
    rcases x with (_ | _ | _ | _ | _ | _) | _ <;> rfl
  rw [leafInlines, filterMap_collectedInlines, funext each]

theorem not_hasInline_link {doc : Document} (unlinked : doc.collectedInlines Inline.ownLink = [])
    (q : Address) (target : Target) (children : List Inline) :
    ¬ doc.HasInline q (.span (.link target) children) := by
  intro found
  rw [collectedInlines_eq_flatMap, List.flatMap_eq_nil_iff] at unlinked
  have none := unlinked _ (List.mem_map.mpr ⟨_, mem_inlineOccurrences.mpr found, rfl⟩)
  cases none

end Document

/-! ### Main statement -/

/-- **Numbering goes in the order of reading.** In a document without html inlines, links are taken apart in
one replacing, and a numbered marker is put behind what was in each. The numbers go up to the number of
links in the document; no link is left, at any depth; the html that is then found is the markers from the
first to the last, in this order; and the other leaves are those of before in the same order. -/
theorem Document.numbering_inOrder (marker : Nat → String) (doc : Document)
    (plain : ∀ q literal, ¬ doc.HasInline q (.html literal)) :
    let after := (doc.replaceInlines (Inline.numberLink marker)).run 0
    let d := after.1
    let n := after.2
    n = (doc.filteredInlines isLink).length ∧
    (∀ q target children, ¬ d.HasInline q (.span (.link target) children)) ∧
    d.collectedInlines Inline.ownHtml = (List.range' 1 n).map marker ∧
    d.leafInlines.filter (fun node => node.html?.isNone) = doc.leafInlines := by
  intro after d n
  obtain ⟨count, leaves, unlinked⟩ := doc.numbered marker
  -- Without html of its own the row tells markers and other leaves apart.
  have noHtml : ∀ node, some node ∈ doc.markRow → node.html? = none :=
    fun node h => html?_of_mem_markRow plain h
  refine ⟨count.trans doc.count_markRow, not_hasInline_link unlinked, ?_, ?_⟩
  · calc d.collectedInlines Inline.ownHtml
        = (filled marker 0 doc.markRow).filterMap LeafInline.html? := by
          rw [collectedInlines_ownHtml, leaves]
      _ = (List.range' 1 (doc.markRow.count none)).map marker := filterMap_html?_filled marker 0 noHtml
      _ = (List.range' 1 n).map marker := by rw [← count]
  · calc d.leafInlines.filter (fun node => node.html?.isNone)
        = (filled marker 0 doc.markRow).filter (fun node => node.html?.isNone) := by rw [leaves]
      _ = doc.markRow.filterMap id := filter_filled marker 0 noHtml
      _ = doc.leafInlines := doc.filterMap_markRow

/-- The inner link of the two in the list is the first one, the one in the image of the heading the third. -/
theorem Document.numbering_inOrder_nested :
    let target : Target := ⟨none, some "/"⟩
    let doc : Document := [
      .quote [.list .unordered [[.paragraph [
        .span (.link target) [.text "a", .span .emphasis [.span (.link target) [.text "b"]]],
        .text "c"]]]],
      .heading 2 [.span (.image target) [.span (.link target) [.code "d"]]]]
    let d : Document := [
      .quote [.list .unordered [[.paragraph [
        .text "a", .span .emphasis [.text "b", .html "1"], .html "2", .text "c"]]]],
      .heading 2 [.span (.image target) [.code "d", .html "3"]]]
    (∀ q literal, ¬ doc.HasInline q (.html literal)) ∧
    (doc.replaceInlines (Inline.numberLink toString)).run 0 = (d, 3) ∧
    (doc.filteredInlines isLink).length = 3 ∧
    (∀ q target children, ¬ d.HasInline q (.span (.link target) children)) ∧
    d.collectedInlines Inline.ownHtml = ["1", "2", "3"] ∧
    d.leafInlines.filter (fun node => node.html?.isNone) =
      [.text "a", .text "b", .text "c", .code "d"] := by
  intro target doc d
  have plain : ∀ q literal, ¬ doc.HasInline q (.html literal) := by
    intro q literal found
    have leaf := Document.mem_leafInlines.mpr ⟨q, found⟩
    have row : doc.leafInlines = [.text "a", .text "b", .text "c", .code "d"] := rfl
    simp [row] at leaf
  obtain ⟨count, unlinked, html, others⟩ := Document.numbering_inOrder toString doc plain
  exact ⟨plain, rfl, count.symm, unlinked, html, others⟩

end MarkdownTree
