import MarkdownTree.Proofs.Tree.Texts

/-!
The frame of a document: all of it but the texts of its paragraphs and headings. A replacing of inlines
keeps the frame, whatever is done to the inlines, and works on the texts one after the other, each by
itself. Main statement: `Document.replaceInlines_frame`.
-/

namespace MarkdownTree

/-! ### Frames and texts -/

mutual

/-- A block without the inlines in it. -/
def Block.frame : Block → Block
  | .leaf node => .leaf node
  | .carrier kind _ => .carrier kind []
  | .list type items => .list type (Block.frameItems items)
  | .quote blocks => .quote (Block.frameAll blocks)

def Block.frameAll : List Block → List Block
  | [] => []
  | b :: bs => Block.frame b :: Block.frameAll bs

def Block.frameItems : List (List Block) → List (List Block)
  | [] => []
  | item :: items => Block.frameAll item :: Block.frameItems items

end

mutual

/-- The texts of the paragraphs and headings in a block, from left to right. -/
def Block.texts : Block → List (List Inline)
  | .leaf _ => []
  | .carrier _ text => [text]
  | .list _ items => Block.textsItems items
  | .quote blocks => Block.textsAll blocks

def Block.textsAll : List Block → List (List Inline)
  | [] => []
  | b :: bs => Block.texts b ++ Block.textsAll bs

def Block.textsItems : List (List Block) → List (List Inline)
  | [] => []
  | item :: items => Block.textsAll item ++ Block.textsItems items

end

namespace Document

/-- A document without its inlines. -/
def frame (doc : Document) : Document := Block.frameAll doc

/-- The texts of all paragraphs and headings of a document, from left to right. -/
def texts (doc : Document) : List (List Inline) := Block.textsAll doc

end Document

/-! ### Changing texts -/

section MapTexts

variable {m : Type → Type} [Monad m] [LawfulMonad m] (g : List Inline → m (List Inline))

/-- Parts in a row, blocks or items, have the frames and the texts of the first part and then those of the
rest. -/
theorem frame_texts_cons {A : Type} {frame : A → A} {texts : A → List (List Inline)}
    {frameAll : List A → List A} {textsAll : List A → List (List Inline)}
    (hframe : ∀ a as, frameAll (a :: as) = frame a :: frameAll as)
    (htexts : ∀ a as, textsAll (a :: as) = texts a ++ textsAll as)
    {x : m A} {y : m (List A)} {a : A} {as : List A} {ts us : List (List Inline)}
    (here : (fun a => (frame a, texts a)) <$> x = (a, ·) <$> ts.mapM g)
    (later : (fun as => (frameAll as, textsAll as)) <$> y = (as, ·) <$> us.mapM g) :
    (fun as => (frameAll as, textsAll as)) <$> (do let a ← x; let as ← y; pure (a :: as)) =
      (a :: as, ·) <$> (ts ++ us).mapM g := by
  calc (fun as => (frameAll as, textsAll as)) <$> (do let a ← x; let as ← y; pure (a :: as))
      = (do
          let p ← (fun a => (frame a, texts a)) <$> x
          let q ← (fun as => (frameAll as, textsAll as)) <$> y
          pure (p.1 :: q.1, p.2 ++ q.2)) := by simp [hframe, htexts]
    _ = (do
          let p ← (a, ·) <$> ts.mapM g
          let q ← (as, ·) <$> us.mapM g
          pure (p.1 :: q.1, p.2 ++ q.2)) := by rw [here, later]
    _ = (a :: as, ·) <$> (ts ++ us).mapM g := by simp

mutual

/-- Changing the texts in a block keeps its frame, and makes of its texts what changing one after the
other makes of them. -/
theorem Block.frame_texts_mapTexts : ∀ b : Block,
    (fun c => (c.frame, c.texts)) <$> Block.mapTexts g b = (b.frame, ·) <$> b.texts.mapM g
  | .leaf node => by simp [Block.mapTexts, Block.frame, Block.texts]
  | .carrier kind text => by simp [Block.mapTexts, Block.frame, Block.texts]
  | .list type items => by
    have inside := congrArg (Prod.map (Block.list type) id <$> ·)
      (Block.frame_texts_mapTextsItems items)
    simpa [Block.mapTexts, Block.frame, Block.texts] using inside
  | .quote blocks => by
    have inside := congrArg (Prod.map Block.quote id <$> ·) (Block.frame_texts_mapTextsAll blocks)
    simpa [Block.mapTexts, Block.frame, Block.texts] using inside

theorem Block.frame_texts_mapTextsAll : ∀ bs : List Block,
    (fun cs => (Block.frameAll cs, Block.textsAll cs)) <$> Block.mapTextsAll g bs =
      (Block.frameAll bs, ·) <$> (Block.textsAll bs).mapM g
  | [] => by simp [Block.mapTextsAll, Block.frameAll, Block.textsAll]
  | b :: bs => by
    rw [Block.mapTextsAll]
    exact frame_texts_cons g (fun _ _ => rfl) (fun _ _ => rfl) (Block.frame_texts_mapTexts b)
      (Block.frame_texts_mapTextsAll bs)

theorem Block.frame_texts_mapTextsItems : ∀ items : List (List Block),
    (fun cs => (Block.frameItems cs, Block.textsItems cs)) <$> Block.mapTextsItems g items =
      (Block.frameItems items, ·) <$> (Block.textsItems items).mapM g
  | [] => by simp [Block.mapTextsItems, Block.frameItems, Block.textsItems]
  | item :: items => by
    rw [Block.mapTextsItems]
    exact frame_texts_cons g (fun _ _ => rfl) (fun _ _ => rfl) (Block.frame_texts_mapTextsAll item)
      (Block.frame_texts_mapTextsItems items)

end

/-- Replacing the inlines of a document keeps its frame, and replaces the inlines of its texts one text
after the other. -/
theorem Document.frame_texts_replaceInlines (f : Inline → m (List Inline)) (doc : Document) :
    (fun d : Document => (d.frame, d.texts)) <$> doc.replaceInlines f =
      (doc.frame, ·) <$> doc.texts.mapM (collectEach (Inline.replace f)) := by
  have each : Inline.replaceAll f = collectEach (Inline.replace f) :=
    funext (Inline.replaceAll_eq f)
  rw [Document.replaceInlines, each]
  exact Block.frame_texts_mapTextsAll _ doc

end MapTexts

/-! ### Runs -/

/-- **A replacing of inlines keeps the frame.** If it does not fail, the document that it gives has the frame
of the one that it was given: nothing but texts has changed, whatever took the places of the inlines. Each
text is what comes of replacing the inlines of the text that was in its place, one inline after the other,
from the state that was left by the texts before it. -/
theorem Document.replaceInlines_frame {ε σ : Type} {s s' : σ} {doc d : Document}
    {f : Inline → Fallible ε σ (List Inline)} (h : (doc.replaceInlines f).run.run s = (.ok d, s')) :
    d.frame = doc.frame ∧
    ∃ calls : List (Call σ (List Inline) (List Inline)),
      calls.map Call.node = doc.texts ∧ calls.map Call.outcome = d.texts ∧
      Chain (collectEach (Inline.replace f)) s calls s' := by
  have parts := congrArg (fun x => x.run.run s) (doc.frame_texts_replaceInlines f)
  simp only [Fallible.run_map, h] at parts
  rcases hrun : (doc.texts.mapM (collectEach (Inline.replace f))).run.run s with ⟨e | out, t⟩
  · rw [hrun] at parts
    cases parts
  · rw [hrun] at parts
    obtain ⟨hvalue, rfl⟩ := Prod.mk.inj parts
    obtain ⟨hframe, rfl⟩ := Prod.mk.inj (Except.ok.inj hvalue)
    exact ⟨hframe, exists_chain_of_mapM hrun⟩

/-- Puts as many copies of an inline in its place as there were calls before. -/
def copyByCount (x : Inline) : Fallible String Nat (List Inline) :=
  ExceptT.mk fun count => (.ok (List.replicate count x), count + 1)

/-- The first inline goes, the second stays, and the third, in a list of two items, is doubled. -/
theorem Document.replaceInlines_frame_counting :
    let doc : Document := [.quote [.heading 2 [.text "a", .text "b"]],
      .list .ordered [[.html "c", .paragraph [.code "d"]], []]]
    let d : Document := [.quote [.heading 2 [.text "b"]],
      .list .ordered [[.html "c", .paragraph [.code "d", .code "d"]], []]]
    (doc.replaceInlines copyByCount).run.run 0 = (.ok d, 3) ∧
    d.frame = doc.frame ∧
    ∃ calls : List (Call Nat (List Inline) (List Inline)),
      calls.map Call.node = [[.text "a", .text "b"], [.code "d"]] ∧
      calls.map Call.outcome = [[.text "b"], [.code "d", .code "d"]] ∧
      Chain (collectEach (Inline.replace copyByCount)) 0 calls 3 :=
  ⟨rfl, Document.replaceInlines_frame rfl⟩

end MarkdownTree
