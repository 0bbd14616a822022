import MarkdownTree.Proofs.Tree.Commute
import MarkdownTree.Proofs.Tree.Settle
import MarkdownTree.Proofs.Tree.Substitute

/-!
Taking containers apart. Where the contents of some lists and quotes are put in their places, in one pass
and at every depth, nothing has changed for a function that sees through lists and quotes: one that gives
for a container what it gives for the blocks in it. Collecting from the inlines of a document is such a
function, and so is a fold that joins what it comes to for blocks. Of spans taken apart in the same way the
leaves remain, in their order. Main statement: `Document.unwrapping_keeps`.
-/

namespace MarkdownTree

variable {m : Type → Type} [Monad m] {α M : Type}

open Gather (concat)

/-! ### Unwrapping -/

/-- Puts the contents of a list or quote in its place where the predicate holds of it, and keeps any other
block, whether or not the predicate holds of that. -/
def Block.unwrapIf (p : Block → m Bool) (b : Block) : m (List Block) := do
  let taken ← p b
  pure (if taken then b.contents else [b])

/-- The children of a span; a leaf is all there is. -/
def Inline.contents : Inline → List Inline
  | .leaf node => [.leaf node]
  | .span _ children => children

/-- Puts the children of a span in its place where the predicate holds of it, and keeps any other inline. -/
def Inline.unwrapped (p : Inline → Bool) (x : Inline) : List Inline := if p x then x.contents else [x]

/-! ### Functions that see through containers -/

namespace Document

/-- A function sees through lists and quotes: it gives for one of them what it gives for the blocks in it, and
what it gives for two documents in a row is a matter of what it gives for each. -/
structure SeesThrough {X : Type} (φ : Document → X) : Prop where
  append {as bs as' bs' : Document} : φ as = φ as' → φ bs = φ bs' → φ (as ++ bs) = φ (as' ++ bs')
  list (type : ListType) (items : List (List Block)) : φ [.list type items] = φ items.flatten
  quote (blocks : List Block) : φ [.quote blocks] = φ blocks

end Document

section SeesThrough

variable {X τ : Type} {φ : Document → X}

theorem Document.SeesThrough.contents (h : SeesThrough φ) (b : Block) : φ b.contents = φ [b] := by
  cases b with
  | leaf | carrier => rfl
  | list type items => exact (h.list type items).symm
  | quote blocks => exact (h.quote blocks).symm

theorem Document.SeesThrough.unwrapIf (h : SeesThrough φ) (p : Block → StateM τ Bool) (b : Block)
    (t : τ) : φ ((b.unwrapIf p).run t).1 = φ [b] := by
  have run : ((b.unwrapIf p).run t).1 = if ((p b).run t).1 then b.contents else [b] := rfl
  rw [run]
  split
  · exact h.contents b
  · rfl

variable {u : Block → StateM τ (List Block)}

mutual

/-- If putting what `u` gives for a block in its place changes nothing that `φ` sees, replacing by `u` changes
nothing either, at any depth. -/
theorem Block.seenThrough_replace (h : Document.SeesThrough φ) (keeps : ∀ b t, φ ((u b).run t).1 = φ [b]) :
    ∀ b t, φ ((Block.replace u b).run t).1 = φ [b]
  | .leaf node, t => keeps (.leaf node) t
  | .carrier kind text, t => keeps (.carrier kind text) t
  | .list type items, t => by
    -- `u` is called on the list as rebuilt, in the state that the items have left.
    let rebuilt := (Block.replaceItems u items).run t
    have inside : φ rebuilt.1.flatten = φ items.flatten :=
      Block.seenThrough_replaceItems h keeps items t
    calc φ ((u (.list type rebuilt.1)).run rebuilt.2).1
        = φ [.list type rebuilt.1] := keeps _ _
      _ = φ rebuilt.1.flatten := h.list type _
      _ = φ items.flatten := inside
      _ = φ [.list type items] := (h.list type items).symm
  | .quote blocks, t => by
    let rebuilt := (Block.replaceAll u blocks).run t
    have inside : φ rebuilt.1 = φ blocks := Block.seenThrough_replaceAll h keeps blocks t
    calc φ ((u (.quote rebuilt.1)).run rebuilt.2).1
        = φ [.quote rebuilt.1] := keeps _ _
      _ = φ rebuilt.1 := h.quote _
      _ = φ blocks := inside
      _ = φ [.quote blocks] := (h.quote blocks).symm

theorem Block.seenThrough_replaceAll (h : Document.SeesThrough φ)
    (keeps : ∀ b t, φ ((u b).run t).1 = φ [b]) :
    ∀ bs t, φ ((Block.replaceAll u bs).run t).1 = φ bs
  | [], t => rfl
  | b :: bs, t => by
    have here := Block.seenThrough_replace h keeps b t
    have later := Block.seenThrough_replaceAll h keeps bs ((Block.replace u b).run t).2
    exact h.append here later

theorem Block.seenThrough_replaceItems (h : Document.SeesThrough φ)
    (keeps : ∀ b t, φ ((u b).run t).1 = φ [b]) :
    ∀ items t, φ ((Block.replaceItems u items).run t).1.flatten = φ items.flatten
  | [], t => rfl
  | item :: items, t => by
    have here := Block.seenThrough_replaceAll h keeps item t
    have later := Block.seenThrough_replaceItems h keeps items ((Block.replaceAll u item).run t).2
    rw [List.flatten_cons]
    exact h.append here later

end

/-- Taking lists and quotes apart changes nothing for a function that sees through them, whatever the
predicate remembers of the blocks before. -/
theorem Document.SeesThrough.unwrapped (h : Document.SeesThrough φ) (p : Block → StateM τ Bool)
    (doc : Document) (t : τ) : φ ((doc.replaceBlocks (Block.unwrapIf p)).run t).1 = φ doc :=
  Block.seenThrough_replaceAll h (h.unwrapIf p) doc t

end SeesThrough

/-! ### Collecting from inlines sees through containers -/

section Collect

variable [LawfulMonad m] (g : List Inline → m (List α))

theorem Block.collectTextsAll_append (bs cs : List Block) :
    Block.collectTextsAll g (bs ++ cs) = (do
      let first ← Block.collectTextsAll g bs
      let rest ← Block.collectTextsAll g cs
      pure (first ++ rest)) := by
  induction bs with
  | nil => simp [Block.collectTextsAll]
  | cons b bs ih =>
    simp only [List.cons_append, Block.collectTextsAll, ih, bind_assoc, pure_bind, List.append_assoc]

theorem Block.collectTextsAll_singleton (b : Block) :
    Block.collectTextsAll g [b] = Block.collectTexts g b := by
  simp [Block.collectTextsAll]

theorem Block.collectTextsAll_flatten (items : List (List Block)) :
    Block.collectTextsAll g items.flatten = Block.collectTextsItems g items := by
  induction items with
  | nil => rfl
  | cons item items ih =>
    rw [List.flatten_cons, Block.collectTextsAll_append, ih, Block.collectTextsItems]

theorem Document.seesThrough_collectInlines (f : Inline → m (List α)) :
    Document.SeesThrough fun doc => doc.collectInlines f where
  append {as bs as' bs'} has hbs := by
    simp only [Document.collectInlines, Block.collectTextsAll_append] at has hbs ⊢
    rw [has, hbs]
  list type items := by
    simp only [Document.collectInlines]
    rw [Block.collectTextsAll_singleton, Block.collectTexts, Block.collectTextsAll_flatten]
  quote blocks := by
    simp only [Document.collectInlines]
    rw [Block.collectTextsAll_singleton, Block.collectTexts]

end Collect

/-! ### Folds that join the values of blocks -/

/-- The algebra joins what it comes to for the blocks in a list, an item, a quote or the document, as the
collecting algebra does. What it does with other nodes is its own. -/
structure Algebra.JoinsBlocks [Gather M] (A : Algebra m M) : Prop where
  list : A.list = (collecting : Algebra m M).list
  listItem : A.listItem = (collecting : Algebra m M).listItem
  quote : A.quote = (collecting : Algebra m M).quote
  document : A.document = (collecting : Algebra m M).document

section Fold

variable [LawfulMonad m] {A : Algebra m M}

theorem Block.foldAll_append (A : Algebra m M) (bs cs : List Block) :
    Block.foldAll A (bs ++ cs) = (do
      let first ← Block.foldAll A bs
      let rest ← Block.foldAll A cs
      pure (first ++ rest)) := by
  induction bs with
  | nil => simp [Block.foldAll]
  | cons b bs ih => simp [Block.foldAll, ih]

variable [Gather M]

theorem Block.fold_list_of_joins (joins : A.JoinsBlocks) (type : ListType) (items : List (List Block)) :
    Block.fold A (.list type items) = concat <$> Block.foldItems A items := by
  rw [Block.fold, joins.list, map_eq_pure_bind]
  rfl

theorem Block.fold_quote_of_joins (joins : A.JoinsBlocks) (blocks : List Block) :
    Block.fold A (.quote blocks) = concat <$> Block.foldAll A blocks := by
  rw [Block.fold, joins.quote, map_eq_pure_bind]
  rfl

theorem Document.fold_of_joins (joins : A.JoinsBlocks) (doc : Document) :
    doc.fold A = concat <$> Block.foldAll A doc := by
  rw [Document.fold, joins.document, map_eq_pure_bind]
  rfl

variable [LawfulGather M]

theorem Block.concat_foldAll_singleton (b : Block) :
    concat <$> Block.foldAll A [b] = Block.fold A b := by
  simp [Block.foldAll, Gather.concat_singleton]

theorem Block.concat_foldAll_flatten (joins : A.JoinsBlocks) (items : List (List Block)) :
    concat <$> Block.foldAll A items.flatten = concat <$> Block.foldItems A items := by
  induction items with
  | nil => rfl
  | cons item items ih =>
    rw [List.flatten_cons, Block.foldAll_append, concat_map_append, ih,
      Block.foldItems_cons joins.listItem, concat_map_cons]

theorem Document.seesThrough_fold (joins : A.JoinsBlocks) :
    Document.SeesThrough fun doc => doc.fold A where
  append {as bs as' bs'} has hbs := by
    simp only [Document.fold_of_joins joins, Block.foldAll_append, concat_map_append] at has hbs ⊢
    rw [has, hbs]
  list type items := by
    simp only [Document.fold_of_joins joins]
    rw [Block.concat_foldAll_singleton, Block.fold_list_of_joins joins,
      Block.concat_foldAll_flatten joins]
  quote blocks := by
    simp only [Document.fold_of_joins joins]
    rw [Block.concat_foldAll_singleton, Block.fold_quote_of_joins joins]

end Fold

/-! ### Spans -/

section Spans

variable (p : Inline → Bool)

/-- A span that the predicate does not hold of, or a leaf. -/
def Inline.Remains : Inline → Prop
  | .leaf _ => True
  | .span kind children => p (.span kind children) = false

theorem Document.leafInlines_unwrapped (doc : Document) :
    (doc.replacedInlines (Inline.unwrapped p)).leafInlines = doc.leafInlines := by
  refine Document.collectedInlines_replacedInlines (fun x => ?_) doc
  refine Inline.collected_replaced (fun node => ?_) (fun kind xs ys => ?_) x
  · unfold Inline.unwrapped
    split <;> rfl
  · unfold Inline.unwrapped
    split
    · exact (List.append_nil _).symm
    · rw [List.flatMap_singleton, Inline.collected_span]
      rfl

theorem Inline.everyOf_unwrapped (x : Inline) (inside : x.EveryInside (Inline.Remains p)) :
    Inline.EveryOf (Inline.Remains p) (x.unwrapped p) := by
  cases hp : p x with
  | true =>
    rw [Inline.unwrapped, if_pos hp]
    cases x with
    | leaf node => exact ⟨trivial, trivial⟩
    | span kind children => exact inside
  | false =>
    have here : x.Remains p := by
      cases x with
      | leaf node => trivial
      | span kind children => exact hp
    rw [Inline.unwrapped, if_neg (ne_true_of_eq_false hp)]
    exact ⟨Inline.every_iff_inside.mpr ⟨here, inside⟩, trivial⟩

/-- At no depth is a span left that the predicate holds of. -/
theorem Document.remains_unwrapped (doc : Document) {q : Address} {kind : Span} {children : List Inline}
    (h : (doc.replacedInlines (Inline.unwrapped p)).HasInline q (.span kind children)) :
    p (.span kind children) = false :=
  Document.everyInline_iff.mp
    (Document.everyInline_replacedInlines (Inline.everyOf_unwrapped p) doc) q _ h

end Spans

/-! ### Main statement -/

/-- **Taking containers apart loses nothing.** Lists and quotes are taken apart where a predicate holds of
them, which may remember the blocks before. Then collecting from the inlines comes to the same values or the
same error as before, after the same calls and in the same state; and so does a fold that joins what it
comes to for blocks, where joining is lawful, whatever else the algebra does. Spans are taken apart where a
predicate without a memory holds of them. Then the leaves are those of before in the same order, and no span
is left, at any depth, that the predicate holds of. -/
theorem Document.unwrapping_keeps (doc : Document) :
    (∀ {τ : Type} (p : Block → StateM τ Bool) (t : τ),
      let d := ((doc.replaceBlocks (Block.unwrapIf p)).run t).1
      (∀ {ε σ α : Type} (g : Inline → Fallible ε σ (List α)) (s : σ),
        (d.collectInlines g).run.run s = (doc.collectInlines g).run.run s ∧
        (Walk.collectInlines α d).tryRun g s = (Walk.collectInlines α doc).tryRun g s) ∧
      (∀ {ε σ M : Type} [Gather M] [LawfulGather M] (A : Algebra (Fallible ε σ) M), A.JoinsBlocks →
        ∀ s : σ, (d.fold A).run.run s = (doc.fold A).run.run s)) ∧
    (∀ p : Inline → Bool,
      let d := doc.replacedInlines (Inline.unwrapped p)
      d.leafInlines = doc.leafInlines ∧
      ∀ q kind children, d.HasInline q (.span kind children) → p (.span kind children) = false) := by
  constructor
  · intro τ p t d
    have seen {X : Type} {φ : Document → X} (h : SeesThrough φ) : φ d = φ doc := h.unwrapped p doc t
    constructor
    · intro ε σ α g s
      have same {ρ : Type} (g : Inline → Fallible ε ρ (List α)) :
          d.collectInlines g = doc.collectInlines g := seen (seesThrough_collectInlines g)
      exact ⟨by rw [same], Walk.tryRun_congr same g s⟩
    · intro ε σ M _ _ A joins s
      exact congrArg (fun x => x.run.run s) (seen (seesThrough_fold joins))
  · intro p d
    exact ⟨doc.leafInlines_unwrapped p, fun q kind children h => doc.remains_unwrapped p h⟩

/-- Holds of every second block that it is asked about. -/
def everySecond (_ : Block) : StateM Nat Bool := fun count => (count % 2 == 1, count + 1)

/-- Holds of links. -/
def isLink : Inline → Bool
  | .span (.link _) _ => true
  | _ => false

/-- Spells out texts and counts them, and ends a paragraph with a point. -/
def Algebra.spellTexts : Algebra (Fallible String Nat) String :=
  { (collecting : Algebra (Fallible String Nat) String) with
    paragraph := some fun values => pure (concat values ++ ".")
    inline := { text := some fun literal => ExceptT.mk fun count => (.ok literal, count + 1) } }

/-- The list in the outer quote is taken apart, and the inner quote is left. Of a link in a link, and what is
strong in it, that remains. -/
theorem Document.unwrapping_keeps_nested :
    let doc : Document := [.quote [.list .ordered [[.paragraph [.text "a"]],
      [.quote [.heading 1 [.text "b"]]]]], .html "c"]
    let d : Document := [.quote [.paragraph [.text "a"], .quote [.heading 1 [.text "b"]]], .html "c"]
    let linked : Document := [.paragraph [.span (.link ⟨none, none⟩) [.span (.link ⟨none, some "/"⟩)
      [.span .strong [.text "a"]], .text "b"]]]
    let plain : Document := [.paragraph [.span .strong [.text "a"], .text "b"]]
    ((doc.replaceBlocks (Block.unwrapIf everySecond)).run 0).1 = d ∧
    LawfulGather String ∧ Algebra.spellTexts.JoinsBlocks ∧
    (d.fold Algebra.spellTexts).run.run 0 = (doc.fold Algebra.spellTexts).run.run 0 ∧
    (doc.fold Algebra.spellTexts).run.run 0 = (.ok "a.b", 2) ∧
    linked.replacedInlines (Inline.unwrapped isLink) = plain ∧
    plain.leafInlines = [.text "a", .text "b"] ∧
    plain.HasInline [0, 0] (.span .strong [.text "a"]) ∧ isLink (.span .strong [.text "a"]) = false := by
  intro doc d linked plain
  have joins : Algebra.spellTexts.JoinsBlocks := ⟨rfl, rfl, rfl, rfl⟩
  have strong : plain.HasInline [0, 0] (.span .strong [.text "a"]) :=
    ⟨[0], 0, [], .paragraph, _, rfl, rfl, rfl⟩
  obtain ⟨blocks, -⟩ := Document.unwrapping_keeps doc
  obtain ⟨-, spans⟩ := Document.unwrapping_keeps linked
  exact ⟨rfl, inferInstance, joins, (blocks everySecond 0).2 Algebra.spellTexts joins 0, rfl, rfl,
    (spans isLink).1, strong, (spans isLink).2 [0, 0] .strong [.text "a"] strong⟩

end MarkdownTree
