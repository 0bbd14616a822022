import MarkdownTree.Proofs.Tree.InlineOccurrence

/-!
Properties of all nodes of a document, at every depth. A property holds of every block or every inline of
a document just if it holds of the ones that have an address (`Document.everyOf_iff`,
`Document.everyInline_iff`); said by recursion it can be proved node by node. What is proved of all
inlines wherever they stand is proved by induction over the children of a span (`Inline.induction`).
-/

namespace MarkdownTree

/-! ### Induction -/

/-- What holds of the leaves, and of a span if it holds of its children, holds of all inlines. -/
@[elab_as_elim]
theorem Inline.induction {P : Inline → Prop} (leaf : ∀ node, P (.leaf node))
    (span : ∀ kind children, (∀ x ∈ children, P x) → P (.span kind children)) : ∀ x, P x
  | .leaf node => leaf node
  | .span kind children => span kind children fun x _ => Inline.induction leaf span x

/-! ### All nodes with an address -/

section Everywhere

variable {N O : Type} {P : O → Prop}

theorem forall_below_iff {find : Address → Option O} :
    (∀ r o, r ≠ [] → find r = some o → P o) ↔ ∀ i r o, find (i :: r) = some o → P o := by
  constructor
  · intro h i r o
    exact h (i :: r) o (List.cons_ne_nil i r)
  · rintro h (_ | ⟨i, r⟩) o hr ho
    · exact absurd rfl hr
    · exact h i r o ho

theorem forall_at?_iff {find : Address → Option O} {top : O} (here : find [] = some top) :
    (∀ r o, find r = some o → P o) ↔ P top ∧ ∀ i r o, find (i :: r) = some o → P o := by
  constructor
  · intro h
    exact ⟨h [] top here, fun i r => h (i :: r)⟩
  · rintro ⟨htop, below⟩ (_ | ⟨i, r⟩) o ho
    · rw [here] at ho
      exact Option.some.inj ho ▸ htop
    · exact below i r o ho

/-- What is found in one of some nodes is found by its index and the address in it. -/
theorem forall_mem_iff_at? {nodes : List N} {find : Address → N → Option O} :
    (∀ node ∈ nodes, ∀ r o, find r node = some o → P o) ↔
      ∀ (i : Nat) (r : Address) (o : O), nodes[i]?.bind (find r) = some o → P o := by
  constructor
  · intro h i r o ho
    obtain ⟨node, hnode, ho⟩ := Option.bind_eq_some_iff.mp ho
    exact h node (List.mem_of_getElem? hnode) r o ho
  · intro h node hnode r o ho
    obtain ⟨i, hi⟩ := List.getElem?_of_mem hnode
    exact h i r o (by rw [hi, Option.bind_some, ho])

end Everywhere

/-! ### Inlines -/

section Inlines

variable (P : Inline → Prop)

mutual

/-- The inline has the property, and so have all inlines in it. -/
def Inline.Every : Inline → Prop
  | .leaf node => P (.leaf node)
  | .span kind children => P (.span kind children) ∧ Inline.EveryOf children

/-- All inlines have the property, and all inlines in them. -/
def Inline.EveryOf : List Inline → Prop
  | [] => True
  | x :: xs => Inline.Every x ∧ Inline.EveryOf xs

end

/-- All inlines inside the inline have the property, at every depth. -/
def Inline.EveryInside : Inline → Prop
  | .leaf _ => True
  | .span _ children => Inline.EveryOf P children

variable {P}

theorem Inline.everyOf_iff {xs : List Inline} :
    Inline.EveryOf P xs ↔ ∀ x ∈ xs, Inline.Every P x := by
  induction xs with
  | nil => simp [Inline.EveryOf]
  | cons x xs ih => simp [Inline.EveryOf, ih]

theorem Inline.everyOf_flatMap {α : Type} {f : α → List Inline} {as : List α} :
    Inline.EveryOf P (as.flatMap f) ↔ ∀ a ∈ as, Inline.EveryOf P (f a) := by
  simp only [Inline.everyOf_iff, List.mem_flatMap]
  exact ⟨fun h a ha x hx => h x ⟨a, ha, hx⟩, fun h x ⟨a, ha, hx⟩ => h a ha x hx⟩

theorem Inline.every_iff {x : Inline} :
    Inline.Every P x ↔ ∀ r y, Inline.at? r x = some y → P y := by
  induction x using Inline.induction with
  | leaf node =>
    rw [Inline.Every, forall_at?_iff (Inline.at?_nil _)]
    simp
  | span kind children ih =>
    rw [Inline.Every, Inline.everyOf_iff, forall₂_congr ih, forall_mem_iff_at?,
      forall_at?_iff (Inline.at?_nil _)]
    simp

theorem Inline.everyOf_iff_at? {xs : List Inline} :
    Inline.EveryOf P xs ↔
      ∀ (i : Nat) (r : Address) (y : Inline), xs[i]?.bind (Inline.at? r) = some y → P y := by
  rw [Inline.everyOf_iff, forall₂_congr fun x _ => Inline.every_iff, forall_mem_iff_at?]

theorem Inline.every_iff_inside {x : Inline} :
    Inline.Every P x ↔ P x ∧ Inline.EveryInside P x := by
  cases x with
  | leaf node => simp [Inline.Every, Inline.EveryInside]
  | span kind children => rw [Inline.Every, Inline.EveryInside]

theorem Inline.everyInside_iff {x : Inline} :
    Inline.EveryInside P x ↔ ∀ r y, r ≠ [] → Inline.at? r x = some y → P y := by
  rw [forall_below_iff]
  cases x with
  | leaf node => simp [Inline.EveryInside]
  | span kind children =>
    rw [Inline.EveryInside, Inline.everyOf_iff_at?]
    simp

end Inlines

/-! ### Blocks -/

section Blocks

variable (Q : Block → Prop)

mutual

/-- The block has the property, and so have all blocks in it. -/
def Block.Every : Block → Prop
  | .leaf node => Q (.leaf node)
  | .carrier kind text => Q (.carrier kind text)
  | .list type items => Q (.list type items) ∧ Block.EveryOfItems items
  | .quote blocks => Q (.quote blocks) ∧ Block.EveryOf blocks

/-- All blocks have the property, and all blocks in them. -/
def Block.EveryOf : List Block → Prop
  | [] => True
  | b :: bs => Block.Every b ∧ Block.EveryOf bs

/-- All blocks of all items have the property, and all blocks in them. -/
def Block.EveryOfItems : List (List Block) → Prop
  | [] => True
  | item :: items => Block.EveryOf item ∧ Block.EveryOfItems items

end

/-- All blocks inside the block have the property, at every depth. -/
def Block.EveryInside : Block → Prop
  | .leaf _ | .carrier .. => True
  | .list _ items => Block.EveryOfItems Q items
  | .quote blocks => Block.EveryOf Q blocks

variable {Q}

theorem Block.everyOf_iff {bs : List Block} :
    Block.EveryOf Q bs ↔ ∀ b ∈ bs, Block.Every Q b := by
  induction bs with
  | nil => simp [Block.EveryOf]
  | cons b bs ih => simp [Block.EveryOf, ih]

theorem Block.everyOfItems_iff {items : List (List Block)} :
    Block.EveryOfItems Q items ↔ ∀ item ∈ items, Block.EveryOf Q item := by
  induction items with
  | nil => simp [Block.EveryOfItems]
  | cons item items ih => simp [Block.EveryOfItems, ih]

theorem Block.everyOf_flatMap {α : Type} {f : α → List Block} {as : List α} :
    Block.EveryOf Q (as.flatMap f) ↔ ∀ a ∈ as, Block.EveryOf Q (f a) := by
  simp only [Block.everyOf_iff, List.mem_flatMap]
  exact ⟨fun h a ha b hb => h b ⟨a, ha, hb⟩, fun h b ⟨a, ha, hb⟩ => h a ha b hb⟩

theorem Block.everyOf_map {α : Type} {f : α → Block} {as : List α} :
    Block.EveryOf Q (as.map f) ↔ ∀ a ∈ as, Block.Every Q (f a) := by
  rw [Block.everyOf_iff, List.forall_mem_map]

theorem Block.everyOfItems_map {α : Type} {f : α → List Block} {as : List α} :
    Block.EveryOfItems Q (as.map f) ↔ ∀ a ∈ as, Block.EveryOf Q (f a) := by
  rw [Block.everyOfItems_iff, List.forall_mem_map]

theorem Block.everyOf_append {bs cs : List Block} :
    Block.EveryOf Q (bs ++ cs) ↔ Block.EveryOf Q bs ∧ Block.EveryOf Q cs := by
  induction bs with
  | nil => simp [Block.EveryOf]
  | cons b bs ih => simp [Block.EveryOf, ih, and_assoc]

/-- Where it is so for each block, blocks all have the property just if those of the document that they
are do. -/
theorem Block.everyOf_iff_of_each {bs : List Block}
    (each : ∀ b ∈ bs, Block.Every Q b ↔ ∀ r c, Block.at? r b = some c → Q c) :
    Block.EveryOf Q bs ↔ ∀ p c, Document.at? bs p = some c → Q c := by
  rw [Block.everyOf_iff, forall₂_congr each, forall_mem_iff_at?]
  constructor
  · rintro h (_ | ⟨i, r⟩) c hc
    · cases hc
    · exact h i r c hc
  · intro h i r
    exact h (i :: r)

theorem Block.every_iff {b : Block} :
    Block.Every Q b ↔ ∀ r c, Block.at? r b = some c → Q c := by
  induction b using Block.induction with
  | leaf | carrier =>
    rw [Block.Every, forall_at?_iff (Block.at?_nil _)]
    simp
  | list type items ih =>
    rw [Block.Every, Block.everyOfItems_iff,
      forall₂_congr fun item hitem => Block.everyOf_iff_of_each (ih item hitem), forall_mem_iff_at?,
      forall_at?_iff (Block.at?_nil _)]
    simp [Block.at?_list_cons]
  | quote blocks ih =>
    rw [Block.Every, Block.everyOf_iff, forall₂_congr ih, forall_mem_iff_at?,
      forall_at?_iff (Block.at?_nil _)]
    simp

theorem Document.everyOf_iff {doc : Document} :
    Block.EveryOf Q doc ↔ ∀ p b, doc.at? p = some b → Q b :=
  Block.everyOf_iff_of_each fun _ _ => Block.every_iff

theorem Block.every_iff_inside {b : Block} :
    Block.Every Q b ↔ Q b ∧ Block.EveryInside Q b := by
  cases b with
  | leaf | carrier => simp [Block.Every, Block.EveryInside]
  | list | quote => rw [Block.Every, Block.EveryInside]

theorem Block.everyInside_iff {b : Block} :
    Block.EveryInside Q b ↔ ∀ r c, r ≠ [] → Block.at? r b = some c → Q c := by
  rw [forall_below_iff]
  cases b with
  | leaf | carrier => simp [Block.EveryInside]
  | list type items =>
    rw [Block.EveryInside, Block.everyOfItems_iff,
      forall₂_congr fun item _ => Document.everyOf_iff, forall_mem_iff_at?]
    simp [Block.at?_list_cons]
  | quote blocks =>
    rw [Block.EveryInside, Block.everyOf_iff, forall₂_congr fun b _ => Block.every_iff,
      forall_mem_iff_at?]
    simp

end Blocks

/-! ### Documents -/

/-- The inlines of a document are those of the texts of its blocks. -/
theorem Document.everyInline_iff {P : Inline → Prop} {doc : Document} :
    Block.EveryOf (fun b => Inline.EveryOf P b.text) doc ↔ ∀ q x, doc.HasInline q x → P x := by
  rw [Document.everyOf_iff]
  constructor
  · rintro h q x ⟨p, i, r, kind, text, rfl, hb, hx⟩
    exact Inline.everyOf_iff_at?.mp (h p _ hb) i r x hx
  · intro h p b hb
    rw [Inline.everyOf_iff_at?]
    intro i r x hx
    cases b with
    | carrier kind text => exact h _ x ⟨p, i, r, kind, text, rfl, hb, hx⟩
    | leaf | list | quote => simp [Block.text] at hx

end MarkdownTree
