import MarkdownTree.Proofs.Tree.Outline
import MarkdownTree.Proofs.Walk.Calls
import MarkdownTree.Tree.Collect
import MarkdownTree.Tree.Fold

/-!
Gathering by a fold and by a collecting. A fold joins values item by item, block by block and text by
text; a collecting has one list for the whole document. Where joining is associative, with the empty value
for its identity, the grouping does not matter: the fold comes to the values of the collecting, joined.
Main statement: `Document.gathering_runs`.
-/

namespace MarkdownTree

open Gather (concat combine)

/-- What a block is, the blocks and inlines in it aside. -/
def Block.label : Block → Label
  | .leaf node => .leafBlock node
  | .carrier kind _ => .carrier kind
  | .list type _ => .list type
  | .quote _ => .quote

/-! ### The algebras and the collectings -/

section Definitions

variable {m : Type → Type} [Monad m] {M N : Type}

/-- The values of the children joined, and after them the value for a node of its own. -/
def joinBefore [Gather M] (values : List M) (own : m M) : m M := do
  let value ← own
  pure (combine (concat values) value)

namespace Algebra

variable [Gather M] (g : Label → m M)

/-- The algebra that gathers what `g` gives for the data of each inline, after what is in it. -/
def gatheringInlines : Algebra m M :=
  { (collecting : Algebra m M) with
    inline := {
      text := some fun literal => g (.leafInline (.text literal))
      softBreak := some (g (.leafInline .softBreak))
      lineBreak := some (g (.leafInline .lineBreak))
      code := some fun literal => g (.leafInline (.code literal))
      html := some fun literal => g (.leafInline (.html literal))
      custom := some fun literal => g (.leafInline (.custom literal))
      emphasis := some fun values => joinBefore values (g (.span .emphasis))
      strong := some fun values => joinBefore values (g (.span .strong))
      link := some fun values target => joinBefore values (g (.span (.link target)))
      image := some fun values target => joinBefore values (g (.span (.image target)))
    } }

/-- The algebra that gathers what `g` gives for the data of each block, after the blocks in it. -/
def gatheringBlocks : Algebra m M :=
  { (collecting : Algebra m M) with
    list := some fun values type => joinBefore values (g (.list type))
    quote := some fun values => joinBefore values (g .quote)
    codeBlock := some fun text language => g (.leafBlock (.codeBlock text language))
    html := some fun literal => g (.leafBlock (.html literal))
    paragraph := some fun _ => g (.carrier .paragraph)
    heading := some fun _ level => g (.carrier (.heading level))
    custom := some fun literal => g (.leafBlock (.custom literal))
    thematicBreak := some (g (.leafBlock .thematicBreak)) }

end Algebra

/-- What `g` gives for the data of a node, as the one value collected there. -/
def collectOwn (label : N → Label) (g : Label → m M) (node : N) : m (List M) := do
  let value ← g (label node)
  pure [value]

/-- Where an item has the values of its blocks joined, so has the first of some items. -/
theorem Block.foldItems_cons [LawfulMonad m] [Gather M] {A : Algebra m M}
    (h : A.listItem = some fun values => pure (concat values)) (item : List Block)
    (items : List (List Block)) :
    Block.foldItems A (item :: items) = (do
      let v ← concat <$> Block.foldAll A item
      let vs ← Block.foldItems A items
      pure (v :: vs)) := by
  have node (values : List M) :
      A.orDefault (A.listItem.map (· values)) = pure (concat values) := by
    rw [h]
    rfl
  rw [Block.foldItems]
  simp [node]

end Definitions

/-! ### Joined values -/

section Joined

variable {m : Type → Type} [Monad m] [LawfulMonad m] {M : Type} [Gather M] [LawfulGather M]

theorem Gather.concat_singleton (v : M) : concat [v] = v :=
  LawfulGather.empty_combine v

theorem Gather.concat_replicate_empty (n : Nat) : concat (List.replicate n (empty : M)) = empty := by
  induction n with
  | zero => rfl
  | succ n ih => rw [List.replicate_succ, concat_cons, ih, LawfulGather.empty_combine]

/-- What two collectings in a row give, joined. -/
theorem concat_map_append (x y : m (List M)) :
    concat <$> (do let xs ← x; let ys ← y; pure (xs ++ ys)) =
      (do let v ← concat <$> x; let w ← concat <$> y; pure (combine v w)) := by
  simp [Gather.concat_append]

/-- A value before others, joined. -/
theorem concat_map_cons (x : m M) (y : m (List M)) :
    concat <$> (do let v ← x; let vs ← y; pure (v :: vs)) =
      (do let v ← x; let w ← concat <$> y; pure (combine v w)) := by
  simp [Gather.concat_cons]

theorem concat_map_collectOwn {N : Type} (label : N → Label) (g : Label → m M) (node : N) :
    concat <$> collectOwn label g node = g (label node) := by
  simp [collectOwn, Gather.concat_singleton]

/-- A container comes after what is in it, whether its own value is joined or collected. -/
theorem bind_joinBefore {N : Type} {x y : m (List M)} (h : concat <$> x = concat <$> y)
    (label : N → Label) (g : Label → m M) (node : N) :
    (x >>= fun values => joinBefore values (g (label node))) =
      concat <$> (do let below ← y; let here ← collectOwn label g node; pure (below ++ here)) := by
  have own : g (label node) = concat <$> collectOwn label g node :=
    (concat_map_collectOwn label g node).symm
  calc (x >>= fun values => joinBefore values (g (label node)))
      = (do let v ← concat <$> x; let w ← g (label node); pure (combine v w)) := by
        simp [joinBefore]
    _ = (do let v ← concat <$> y; let w ← concat <$> collectOwn label g node; pure (combine v w)) := by
        rw [h, own]
    _ = concat <$> (do let below ← y; let here ← collectOwn label g node; pure (below ++ here)) :=
        (concat_map_append y _).symm

end Joined

/-! ### Gathering from inlines -/

section Inlines

variable {m : Type → Type} [Monad m] [LawfulMonad m] {M : Type} [Gather M] [LawfulGather M]
  (g : Label → m M)

mutual

theorem Inline.fold_gatheringInlines : ∀ x : Inline,
    Inline.fold (.gatheringInlines g) x = concat <$> Inline.collect (collectOwn Inline.label g) x
  | .leaf node => by
    rw [Inline.collect, concat_map_collectOwn]
    cases node <;> rfl
  | .span kind children => by
    have node (values : List M) : (Algebra.gatheringInlines g).orDefault
        ((Algebra.gatheringInlines g).inline.span values kind) =
        joinBefore values (g (Inline.label (.span kind children))) := by
      cases kind <;> rfl
    rw [Inline.fold, Inline.collect]
    simp only [node]
    exact bind_joinBefore (Inline.concat_foldAll_gatheringInlines children) Inline.label g
      (.span kind children)

theorem Inline.concat_foldAll_gatheringInlines : ∀ xs : List Inline,
    concat <$> Inline.foldAll (.gatheringInlines g) xs =
      concat <$> Inline.collectAll (collectOwn Inline.label g) xs
  | [] => rfl
  | x :: xs => by
    rw [Inline.foldAll, Inline.collectAll, concat_map_cons, concat_map_append,
      Inline.fold_gatheringInlines x, Inline.concat_foldAll_gatheringInlines xs]

end

mutual

theorem Block.fold_gatheringInlines : ∀ b : Block,
    Block.fold (.gatheringInlines g) b =
      concat <$> Block.collectTexts (Inline.collectAll (collectOwn Inline.label g)) b
  | .leaf node => by
    rw [Block.collectTexts, map_pure]
    cases node <;> rfl
  | .carrier kind text => by
    rw [Block.fold, Block.collectTexts, ← Inline.concat_foldAll_gatheringInlines g text,
      map_eq_pure_bind]
    cases kind <;> rfl
  | .list type items => by
    rw [Block.fold, Block.collectTexts, ← Block.concat_foldItems_gatheringInlines items,
      map_eq_pure_bind]
    rfl
  | .quote blocks => by
    rw [Block.fold, Block.collectTexts, ← Block.concat_foldAll_gatheringInlines blocks,
      map_eq_pure_bind]
    rfl

theorem Block.concat_foldAll_gatheringInlines : ∀ bs : List Block,
    concat <$> Block.foldAll (.gatheringInlines g) bs =
      concat <$> Block.collectTextsAll (Inline.collectAll (collectOwn Inline.label g)) bs
  | [] => rfl
  | b :: bs => by
    rw [Block.foldAll, Block.collectTextsAll, concat_map_cons, concat_map_append,
      Block.fold_gatheringInlines b, Block.concat_foldAll_gatheringInlines bs]

theorem Block.concat_foldItems_gatheringInlines : ∀ items : List (List Block),
    concat <$> Block.foldItems (.gatheringInlines g) items =
      concat <$> Block.collectTextsItems (Inline.collectAll (collectOwn Inline.label g)) items
  | [] => rfl
  | item :: items => by
    rw [Block.foldItems_cons rfl, Block.collectTextsItems, concat_map_cons, concat_map_append,
      Block.concat_foldAll_gatheringInlines item, Block.concat_foldItems_gatheringInlines items]

end

/-- The fold that gathers from inlines comes to what is collected from them, joined. -/
theorem Document.fold_gatheringInlines (doc : Document) :
    doc.fold (.gatheringInlines g) =
      concat <$> doc.collectInlines (collectOwn Inline.label g) := by
  rw [Document.fold, Document.collectInlines, ← Block.concat_foldAll_gatheringInlines,
    map_eq_pure_bind]
  rfl

end Inlines

/-! ### Gathering from blocks -/

section Blocks

variable {m : Type → Type} [Monad m] [LawfulMonad m] {M : Type} [Gather M] (g : Label → m M)

mutual

/-- No inline has a value of its own here. -/
theorem Inline.fold_gatheringBlocks [LawfulGather M] : ∀ x : Inline,
    Inline.fold (.gatheringBlocks g) x = pure Gather.empty
  | .leaf node => by cases node <;> rfl
  | .span kind children => by
    have node (values : List M) : (Algebra.gatheringBlocks g).orDefault
        ((Algebra.gatheringBlocks g).inline.span values kind) = pure (concat values) := by
      cases kind <;> rfl
    rw [Inline.fold, Inline.foldAll_gatheringBlocks children, pure_bind, node,
      Gather.concat_replicate_empty]

theorem Inline.foldAll_gatheringBlocks [LawfulGather M] : ∀ xs : List Inline,
    Inline.foldAll (.gatheringBlocks g) xs = pure (List.replicate xs.length Gather.empty)
  | [] => rfl
  | x :: xs => by
    rw [Inline.foldAll, Inline.fold_gatheringBlocks x, pure_bind,
      Inline.foldAll_gatheringBlocks xs, pure_bind]
    rfl

end

variable [LawfulGather M]

mutual

theorem Block.fold_gatheringBlocks : ∀ b : Block,
    Block.fold (.gatheringBlocks g) b = concat <$> Block.collect (collectOwn Block.label g) b
  | .leaf node => by
    rw [Block.collect, concat_map_collectOwn]
    cases node <;> rfl
  | .carrier kind text => by
    rw [Block.fold, Inline.foldAll_gatheringBlocks, pure_bind, Block.collect,
      concat_map_collectOwn]
    cases kind <;> rfl
  | .list type items => by
    rw [Block.fold, Block.collect]
    exact bind_joinBefore (Block.concat_foldItems_gatheringBlocks items) Block.label g
      (.list type items)
  | .quote blocks => by
    rw [Block.fold, Block.collect]
    exact bind_joinBefore (Block.concat_foldAll_gatheringBlocks blocks) Block.label g (.quote blocks)

theorem Block.concat_foldAll_gatheringBlocks : ∀ bs : List Block,
    concat <$> Block.foldAll (.gatheringBlocks g) bs =
      concat <$> Block.collectAll (collectOwn Block.label g) bs
  | [] => rfl
  | b :: bs => by
    rw [Block.foldAll, Block.collectAll, concat_map_cons, concat_map_append,
      Block.fold_gatheringBlocks b, Block.concat_foldAll_gatheringBlocks bs]

theorem Block.concat_foldItems_gatheringBlocks : ∀ items : List (List Block),
    concat <$> Block.foldItems (.gatheringBlocks g) items =
      concat <$> Block.collectItems (collectOwn Block.label g) items
  | [] => rfl
  | item :: items => by
    rw [Block.foldItems_cons rfl, Block.collectItems, concat_map_cons, concat_map_append,
      Block.concat_foldAll_gatheringBlocks item, Block.concat_foldItems_gatheringBlocks items]

end

/-- The fold that gathers from blocks comes to what is collected from them, joined. -/
theorem Document.fold_gatheringBlocks (doc : Document) :
    doc.fold (.gatheringBlocks g) = concat <$> doc.collectBlocks (collectOwn Block.label g) := by
  rw [Document.fold, Document.collectBlocks, ← Block.concat_foldAll_gatheringBlocks,
    map_eq_pure_bind]
  rfl

end Blocks

/-! ### Runs -/

namespace Walk

/-- The fold that gathers from inlines, as a walk that hands over their data. -/
def gatherInlines (M : Type) [Gather M] (doc : Document) : Walk Label M M :=
  fun _ _ g => doc.fold (.gatheringInlines g)

/-- The fold that gathers from blocks, as a walk that hands over their data. -/
def gatherBlocks (M : Type) [Gather M] (doc : Document) : Walk Label M M :=
  fun _ _ g => doc.fold (.gatheringBlocks g)

/-- Collecting one value from each inline, as a walk that hands over its data. -/
def collectOwnOfInlines (M : Type) (doc : Document) : Walk Label M (List M) :=
  fun _ _ g => doc.collectInlines (collectOwn Inline.label g)

/-- Collecting one value from each block, as a walk that hands over its data. -/
def collectOwnOfBlocks (M : Type) (doc : Document) : Walk Label M (List M) :=
  fun _ _ g => doc.collectBlocks (collectOwn Block.label g)

variable {N M ε σ : Type} [Gather M]

/-- **How a walk gathers what another one collects.** By the same function and from the same state, it
comes to the values that the other one collects, joined from the left, or to its error, and in the same
state. It makes the same calls of the function in the same order. -/
structure Gathers (gather : Walk N M M) (collect : Walk N M (List M)) (f : N → Fallible ε σ M) (s : σ) :
    Prop where
  run : (gather _ f).run.run s = Prod.map (Except.map concat) id ((collect _ f).run.run s)
  outcome : (gather.tryRun f s).1 = (collect.tryRun f s).1.map concat
  state : (gather.tryRun f s).2.state = (collect.tryRun f s).2.state
  calls : (gather.tryRun f s).2.calls = (collect.tryRun f s).2.calls

/-- Where one walk is the other one with its values joined, whatever the function does, it is so too
where the function keeps a journal. -/
theorem Gathers.of_eq {gather : Walk N M M} {collect : Walk N M (List M)}
    (h : ∀ {τ : Type} (f : N → Fallible ε τ M), gather _ f = concat <$> collect _ f)
    (f : N → Fallible ε σ M) (s : σ) : gather.Gathers collect f s := by
  have journal : gather.tryRun f s = Prod.map (Except.map concat) id (collect.tryRun f s) := by
    rw [tryRun, h, Fallible.run_map, tryRun]
  refine ⟨?_, ?_, ?_, ?_⟩
  · rw [h, Fallible.run_map]
  · rw [journal, Prod.map_fst]
  · rw [journal, Prod.map_snd, id]
  · rw [journal, Prod.map_snd, id]

end Walk

/-- **A fold gathers what a collecting collects.** Where joining is lawful, the algebra that gathers what a
function gives for the data of each inline, after what is in the inline, goes as the collecting of those
values from all inlines; and the algebra that gathers so from blocks goes as the collecting from all
blocks. -/
theorem Document.gathering_runs {ε σ M : Type} [Gather M] [LawfulGather M] (doc : Document)
    (g : Label → Fallible ε σ M) (s : σ) :
    (Walk.gatherInlines M doc).Gathers (Walk.collectOwnOfInlines M doc) g s ∧
    (Walk.gatherBlocks M doc).Gathers (Walk.collectOwnOfBlocks M doc) g s := by
  constructor
  · exact .of_eq (fun f => Document.fold_gatheringInlines f doc) g s
  · exact .of_eq (fun f => Document.fold_gatheringBlocks f doc) g s

/-- Spells out texts, urls and what has neither, counts, and refuses thematic breaks. -/
def spellLabel (label : Label) : Fallible String Nat String :=
  ExceptT.mk fun count =>
    match label with
    | .leafInline (.text literal) => (.ok literal, count + 1)
    | .span (.link target) => (.ok (target.url.getD ""), count + 1)
    | .leafBlock .thematicBreak => (.error "a break", count + 1)
    | _ => (.ok "|", count + 1)

/-- The url comes after the text that is in the link. The break is the second of five blocks; neither the
list nor the quote around it is called for. -/
theorem Document.gathering_runs_link :
    let doc : Document := [.quote [.list .ordered [
      [.paragraph [.span (.link ⟨none, some "/a"⟩) [.text "a"], .text "b"]], [.thematicBreak]]],
      .html "c"]
    LawfulGather String ∧
    (doc.fold (.gatheringInlines spellLabel)).run.run 0 = (.ok "a/ab", 3) ∧
    (doc.fold (.gatheringBlocks spellLabel)).run.run 0 = (.error "a break", 2) ∧
    (Walk.gatherInlines String doc).Gathers (Walk.collectOwnOfInlines String doc) spellLabel 0 ∧
    (Walk.gatherBlocks String doc).Gathers (Walk.collectOwnOfBlocks String doc) spellLabel 0 :=
  ⟨inferInstance, rfl, rfl, Document.gathering_runs _ spellLabel 0⟩

end MarkdownTree
