import MarkdownTree.Proofs.Tree.Fold
import MarkdownTree.Proofs.Tree.Substitute

/-!
Fusion laws of the fold. A function that takes the values of one algebra to those of another may be applied
after a fold by the one, or left out with a fold by the other (`Document.folded_fusion`). A replacing of
leaves by leaves may be done before a fold, or left to what the algebra does at the leaves
(`Document.fold_comapLeaves_runs`). Both are laws of the fold of the outline.
-/

namespace MarkdownTree

variable {m : Type → Type} {R S : Type}

/-! ### Folds of trees with values -/

namespace Rose

variable {α β : Type}

section Fusion

variable [Monad m] [LawfulMonad m] {f : α → List R → m R} {g : α → List S → m S} {h : R → S}

mutual

/-- Where `h` of what `f` gives is what `g` gives for `h` of the results below, at each value, `h` of the fold
by `f` is the fold by `g`. -/
theorem fold_fusion (step : ∀ a results, h <$> f a results = g a (results.map h)) :
    ∀ t : Rose α, h <$> fold f t = fold g t
  | .node a ts => by
    rw [fold, fold, ← foldAll_fusion step ts, map_bind, bind_map_left]
    exact bind_congr (step a)

theorem foldAll_fusion (step : ∀ a results, h <$> f a results = g a (results.map h)) :
    ∀ ts : List (Rose α), List.map h <$> foldAll f ts = foldAll g ts
  | [] => map_pure ..
  | t :: ts => by
    rw [foldAll, foldAll, ← fold_fusion step t, ← foldAll_fusion step ts]
    simp

end

end Fusion

section Map

variable (k : α → β)

mutual

/-- The tree with each value changed. -/
def map : Rose α → Rose β
  | .node a ts => .node (k a) (mapAll ts)

def mapAll : List (Rose α) → List (Rose β)
  | [] => []
  | t :: ts => map t :: mapAll ts

end

theorem mapAll_eq_map (ts : List (Rose α)) : mapAll k ts = ts.map (map k) := by
  induction ts with
  | nil => rfl
  | cons t ts ih => rw [mapAll, ih, List.map_cons]

variable [Monad m] (f : β → List R → m R)

mutual

theorem fold_map : ∀ t : Rose α, fold f (map k t) = fold (fun a => f (k a)) t
  | .node a ts => by rw [map, fold, fold, foldAll_mapAll ts]

theorem foldAll_mapAll : ∀ ts : List (Rose α),
    foldAll f (mapAll k ts) = foldAll (fun a => f (k a)) ts
  | [] => rfl
  | t :: ts => by rw [mapAll, foldAll, foldAll, fold_map t, foldAll_mapAll ts]

end

end Map

end Rose

/-! ### The fold by an algebra is a fold of the outline -/

namespace Algebra

variable (A : Algebra m R)

/-- Whether there is a function for a label is not a matter of the values of the children. -/
theorem isSome_function? (label : Label) (values : List R) :
    (A.function? label values).isSome = A.asks label := by
  cases label with
  | leafInline node | leafBlock node => rfl
  | span kind => cases kind <;> simp [asks, function?, InlineAlgebra.span]
  | carrier kind => cases kind <;> simp [asks, function?, carrier]
  | list type | quote | item | document => simp [asks, function?]

theorem step_call [Monad m] (label : Label) (values : List R) :
    Rose.step A.asks A.defaultValue A.call label values = A.call (label, values) := by
  by_cases hasks : A.asks label = true
  · exact if_pos hasks
  · have unset : A.function? label values = none := by
      rwa [← Option.not_isSome_iff_eq_none, A.isSome_function?]
    rw [Rose.step, if_neg hasks, call, unset]
    rfl

end Algebra

theorem Document.fold_eq [Monad m] [LawfulMonad m] (A : Algebra m R) (doc : Document) :
    doc.fold A = doc.outline.fold fun label values => A.call (label, values) := by
  have step : Rose.step A.asks A.defaultValue A.call = fun label values => A.call (label, values) :=
    funext fun label => funext (A.step_call label)
  rw [← step, ← Document.fold_asking, A.asking_call]

/-! ### A function after a fold -/

/-- `h` takes the values of `A` to those of `B`. The two have functions for the same nodes, and what `A` makes
of some values and the data of a node is taken to what `B` makes of `h` of these values and the same data.
The default value is taken to the default value. -/
structure Algebra.IsHom [Monad m] (h : R → S) (A : Algebra m R) (B : Algebra m S) : Prop where
  default : h A.defaultValue = B.defaultValue
  asks : ∀ label, A.asks label = B.asks label
  function : ∀ label values result, A.function? label values = some result →
    B.function? label (values.map h) = some (h <$> result)

section Hom

variable [Monad m] [LawfulMonad m] {h : R → S} {A : Algebra m R} {B : Algebra m S}

theorem Algebra.IsHom.call (hom : A.IsHom h B) (label : Label) (values : List R) :
    h <$> A.call (label, values) = B.call (label, values.map h) := by
  cases hA : A.function? label values with
  | some result =>
    rw [Algebra.call, Algebra.call, hA, hom.function label values result hA]
    rfl
  | none =>
    have unset : B.function? label (values.map h) = none := by
      rw [← Option.not_isSome_iff_eq_none, B.isSome_function?, ← hom.asks, ← A.isSome_function? _ values,
        hA]
      exact Bool.false_ne_true
    rw [Algebra.call, Algebra.call, hA, unset]
    exact (map_pure h A.defaultValue).trans (congrArg pure hom.default)

theorem Document.map_fold (hom : A.IsHom h B) (doc : Document) : h <$> doc.fold A = doc.fold B := by
  rw [Document.fold_eq, Document.fold_eq]
  exact Rose.fold_fusion hom.call doc.outline

end Hom

/-- The value of a document, by functions without effects. -/
def Document.folded (A : Algebra Id R) (doc : Document) : R := (doc.fold A).run

/-- **A homomorphism of algebras fuses with the fold.** Where a function takes the values of one algebra
without effects to those of another at each node by itself, it takes the value of every document by the one
to its value by the other. Both may lack functions, as long as they lack the same ones. -/
theorem Document.folded_fusion {A : Algebra Id R} {B : Algebra Id S} {h : R → S} (hom : A.IsHom h B)
    (doc : Document) : h (doc.folded A) = doc.folded B :=
  congrArg Id.run (Document.map_fold hom doc)

/-- The texts of a document in a list, with a mark for each node that has no function. -/
def Algebra.spelling : Algebra Id (List String) where
  defaultValue := ["?"]
  inline := { text := some fun literal => pure [literal] }
  paragraph := some fun values => pure values.flatten
  document := some fun values => pure values.flatten

/-- The number of texts of a document. A node that has no function counts as one. -/
def Algebra.counting : Algebra Id Nat where
  defaultValue := 1
  inline := { text := some fun _ => pure 1 }
  paragraph := some fun values => pure (values.foldr Nat.add 0)
  document := some fun values => pure (values.foldr Nat.add 0)

theorem Algebra.isHom_length : Algebra.spelling.IsHom List.length Algebra.counting where
  default := rfl
  asks label := by
    cases label with
    | leafInline node => cases node <;> rfl
    | span kind => cases kind <;> rfl
    | leafBlock node => cases node <;> rfl
    | carrier kind => cases kind <;> rfl
    | list | quote | item | document => rfl
  function label values result h := by
    have joined : (values.map List.length).foldr Nat.add 0 = values.flatten.length :=
      List.length_flatten.symm
    cases label with
    | leafInline node => cases node <;> cases h; rfl
    | span kind => cases kind <;> cases h
    | leafBlock node => cases node <;> cases h
    | carrier kind =>
      cases kind <;> cases h
      exact congrArg some joined
    | document =>
      cases h
      exact congrArg some joined
    | list | quote | item => cases h

/-- The strong text and the quote have no function: each is one mark, whatever is in it. -/
theorem Document.folded_fusion_length :
    let doc : Document := [.paragraph [.text "a", .span .strong [.text "b"], .text "c"],
      .quote [.paragraph [.text "d", .text "e"]]]
    Algebra.spelling.IsHom List.length Algebra.counting ∧
    doc.folded Algebra.spelling = ["a", "?", "c", "?"] ∧
    (doc.folded Algebra.spelling).length = doc.folded Algebra.counting :=
  ⟨Algebra.isHom_length, rfl, Document.folded_fusion Algebra.isHom_length _⟩

/-! ### A replacing of leaves before a fold -/

/-- The label with the leaf inline changed, if it is that of one. -/
def Label.mapLeaf (h : LeafInline → LeafInline) : Label → Label
  | .leafInline node => .leafInline (h node)
  | label => label

/-- The algebra that does with each leaf inline what `A` does with the one that `h` makes of it, and with
other nodes what `A` does. -/
def Algebra.comapLeaves [Monad m] (A : Algebra m R) (h : LeafInline → LeafInline) : Algebra m R :=
  { A with
    inline := { A.inline with
      text := some fun literal => A.orDefault (A.inline.leaf (h (.text literal)))
      softBreak := some (A.orDefault (A.inline.leaf (h .softBreak)))
      lineBreak := some (A.orDefault (A.inline.leaf (h .lineBreak)))
      code := some fun literal => A.orDefault (A.inline.leaf (h (.code literal)))
      html := some fun literal => A.orDefault (A.inline.leaf (h (.html literal)))
      custom := some fun literal => A.orDefault (A.inline.leaf (h (.custom literal))) } }

section Leaves

variable (h : LeafInline → LeafInline)

/-- Puts in the place of each leaf the one that `h` makes of it. -/
abbrev Inline.mappedLeaf : Inline → List Inline := Inline.substituted fun node => [h node]

theorem Algebra.comapLeaves_call [Monad m] (A : Algebra m R) (label : Label) (values : List R) :
    (A.comapLeaves h).call (label, values) = A.call (label.mapLeaf h, values) := by
  cases label with
  | leafInline node => cases node <;> rfl
  | span kind => cases kind <;> rfl
  | carrier kind => cases kind <;> rfl
  | leafBlock node => cases node <;> rfl
  | list | quote | item | document => rfl

theorem Inline.outlines_flatMap {f : Inline → List Inline} {k : Label → Label} {xs : List Inline}
    (each : ∀ x ∈ xs, (f x).map Inline.outline = [x.outline.map k]) :
    Inline.roseAll Inline.label (xs.flatMap f) = Rose.mapAll k (Inline.roseAll Inline.label xs) := by
  rw [Inline.roseAll_eq_map, Inline.roseAll_eq_map, Rose.mapAll_eq_map, List.map_flatMap,
    List.flatMap_congr each, ← List.map_eq_flatMap, List.map_map]
  rfl

/-- One inline takes the place of another, and its outline is that of the other with the leaves changed. -/
theorem Inline.outline_mappedLeaf (x : Inline) :
    (x.replaced (Inline.mappedLeaf h)).map Inline.outline = [x.outline.map (Label.mapLeaf h)] := by
  induction x using Inline.induction with
  | leaf node => rfl
  | span kind children ih =>
    rw [Inline.replaced_span, Inline.mappedLeaf, Inline.substituted, List.map_singleton,
      Inline.outline, Inline.rose, Inline.outlines_flatMap ih]
    rfl

theorem Block.outline_withTexts {t : List Inline → List Inline}
    (texts : ∀ text, Inline.roseAll Inline.label (t text) =
      Rose.mapAll (Label.mapLeaf h) (Inline.roseAll Inline.label text)) (b : Block) :
    (b.withTexts t).outline = b.outline.map (Label.mapLeaf h) := by
  have below {bs : List Block}
      (ih : ∀ b ∈ bs, (b.withTexts t).outline = b.outline.map (Label.mapLeaf h)) :
      Block.outlineAll (bs.map (Block.withTexts t)) =
        Rose.mapAll (Label.mapLeaf h) (Block.outlineAll bs) := by
    rw [Block.outlineAll_eq_map, Block.outlineAll_eq_map, Rose.mapAll_eq_map, List.map_map,
      List.map_map]
    exact List.map_congr_left ih
  induction b using Block.induction with
  | leaf node => rfl
  | carrier kind text =>
    rw [Block.withTexts_carrier, Block.outline, texts]
    rfl
  | list type items ih =>
    rw [Block.withTexts_list, Block.outline, Block.outline, Rose.map, Block.outlineItems_eq_map,
      Block.outlineItems_eq_map, Rose.mapAll_eq_map, List.map_map, List.map_map]
    refine congrArg _ (List.map_congr_left fun item hitem => ?_)
    exact congrArg (Rose.node .item) (below (ih item hitem))
  | quote blocks ih =>
    rw [Block.withTexts_quote, Block.outline, below ih]
    rfl

theorem Document.outline_mappedLeaves (doc : Document) :
    (doc.replacedInlines (Inline.mappedLeaf h)).outline = doc.outline.map (Label.mapLeaf h) := by
  rw [Document.replacedInlines_eq, Document.outline, Document.outline, Rose.map,
    Block.outlineAll_eq_map, Block.outlineAll_eq_map, Rose.mapAll_eq_map, List.map_map, List.map_map]
  refine congrArg _ (List.map_congr_left fun b _ => Block.outline_withTexts h (fun text => ?_) b)
  exact Inline.outlines_flatMap fun x _ => Inline.outline_mappedLeaf h x

/-- Replacing the leaves and then folding is folding with the leaves replaced on the way. -/
theorem Document.fold_mappedLeaves [Monad m] [LawfulMonad m] (A : Algebra m R) (doc : Document) :
    (doc.replacedInlines (Inline.mappedLeaf h)).fold A = doc.fold (A.comapLeaves h) := by
  rw [Document.fold_eq, Document.fold_eq, Document.outline_mappedLeaves, Rose.fold_map]
  simp only [Algebra.comapLeaves_call]

end Leaves

/-! ### Runs -/

/-- The fold of a document by the functions that an algebra has, with the leaves changed on the way, as a
walk: it hands over the label of a node, changed if it is that of a leaf inline, with the values of the
children. -/
def Walk.foldComapLeaves (A : Algebra m R) (h : LeafInline → LeafInline) (doc : Document) :
    Walk (Label × List R) R R :=
  fun _ _ f => doc.fold ((A.asking f).comapLeaves h)

/-- **A replacing of leaves fuses with a fold.** Where every leaf inline has been replaced by the one that
`h` makes of it, a fold comes to the value or the error that it comes to for the document as it was, if the
algebra does with each leaf what it would do with the replaced one; it does so in the same state, and after
the same calls. Its functions are called for the same nodes in the same order, each with the same data and
the same values for the children. -/
theorem Document.fold_comapLeaves_runs {ε σ : Type} (A : Algebra (Fallible ε σ) R)
    (h : LeafInline → LeafInline) (doc : Document) (s : σ) :
    A.asking A.call = A ∧
    ((doc.replacedInlines (Inline.mappedLeaf h)).fold A).run.run s =
      (doc.fold (A.comapLeaves h)).run.run s ∧
    (Walk.fold A (doc.replacedInlines (Inline.mappedLeaf h))).tryRun A.call s =
      (Walk.foldComapLeaves A h doc).tryRun A.call s := by
  refine ⟨A.asking_call, ?_, ?_⟩
  · rw [Document.fold_mappedLeaves]
  · exact Walk.tryRun_congr (fun f => doc.fold_mappedLeaves h (A.asking f)) A.call s

/-- The text is folded as code. The code becomes a text, for which there is no function, and counts as
five. -/
example :
    let A : Algebra (Fallible String Nat) Nat := {
      defaultValue := 5
      inline := {
        code := some fun _ => pure 2
        strong := some fun values => pure values.sum }
      paragraph := some fun values => pure values.sum }
    let h : LeafInline → LeafInline
      | .text literal => .code literal
      | .code literal => .text literal
      | node => node
    let doc : Document := [.paragraph [.text "a", .span .strong [.code "b"]]]
    ((Walk.foldComapLeaves A h doc).tryRun A.call 0).2.calls.map Call.node =
      [(.leafInline (.code "a"), []), (.span .strong, [5]), (.carrier .paragraph, [2, 5])] :=
  rfl

end MarkdownTree
