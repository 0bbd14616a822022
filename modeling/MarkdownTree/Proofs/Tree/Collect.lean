import MarkdownTree.Proofs.Tree.InlineOccurrence
import MarkdownTree.Proofs.Walk.Natural
import MarkdownTree.Proofs.Walk.Visits

/-!
What a collecting or filtering asks about. A walk over a tree is the walk over its listing: collecting
from the nodes of a document is collecting from each of its occurrences by itself, in post-order. Main
statement: `Document.collecting_visits`.
-/

namespace MarkdownTree

/-! ### Collecting from nodes one by one -/

section Each

variable {m : Type → Type} [Monad m] {N P α : Type}

/-- Collects from nodes in order, each node by itself. -/
def collectEach (f : N → m (List α)) : List N → m (List α)
  | [] => pure []
  | node :: nodes => do
    let first ← f node
    let rest ← collectEach f nodes
    pure (first ++ rest)

variable (f : N → m (List α))

theorem collectEach_map (h : P → N) (ps : List P) :
    collectEach f (ps.map h) = collectEach (fun p => f (h p)) ps := by
  induction ps with
  | nil => rfl
  | cons p ps ih => rw [List.map_cons, collectEach, ih, collectEach]

variable [LawfulMonad m]

theorem collectEach_singleton (node : N) : collectEach f [node] = f node := by
  simp [collectEach]

theorem collectEach_append (xs ys : List N) : collectEach f (xs ++ ys) = (do
    let first ← collectEach f xs
    let rest ← collectEach f ys
    pure (first ++ rest)) := by
  induction xs with
  | nil => simp [collectEach]
  | cons x xs ih =>
    simp only [List.cons_append, collectEach, ih, bind_assoc, pure_bind, List.append_assoc]

/-- Collecting from what stands for each of some nodes. -/
theorem collectEach_flatMap (nodesOf : P → List N) (ps : List P) :
    collectEach (fun p => collectEach f (nodesOf p)) ps = collectEach f (ps.flatMap nodesOf) := by
  induction ps with
  | nil => rfl
  | cons p ps ih => rw [collectEach, ih, List.flatMap_cons, collectEach_append]

end Each

/-! ### Texts and the blocks that carry them -/

section Texts

variable {m : Type → Type} [Monad m] {α : Type} (g : List Inline → m (List α))

/-- What is collected from the text of a paragraph or heading, and nothing from other blocks. -/
def Block.collectText : Block → m (List α)
  | .carrier _ text => g text
  | .leaf _ | .list .. | .quote _ => pure []

mutual

/-- Collecting from the texts in blocks is collecting from blocks. -/
theorem Block.collectTexts_eq [LawfulMonad m] : ∀ b : Block,
    Block.collectTexts g b = Block.collect (Block.collectText g) b
  | .leaf node => rfl
  | .carrier kind text => rfl
  | .list type items => by
    rw [Block.collectTexts, Block.collectTextsItems_eq items]
    simp [Block.collect, Block.collectText]
  | .quote blocks => by
    rw [Block.collectTexts, Block.collectTextsAll_eq blocks]
    simp [Block.collect, Block.collectText]

theorem Block.collectTextsAll_eq [LawfulMonad m] : ∀ bs : List Block,
    Block.collectTextsAll g bs = Block.collectAll (Block.collectText g) bs
  | [] => rfl
  | b :: bs => by
    rw [Block.collectTextsAll, Block.collectAll, Block.collectTexts_eq b,
      Block.collectTextsAll_eq bs]

theorem Block.collectTextsItems_eq [LawfulMonad m] : ∀ items : List (List Block),
    Block.collectTextsItems g items = Block.collectItems (Block.collectText g) items
  | [] => rfl
  | item :: items => by
    rw [Block.collectTextsItems, Block.collectItems, Block.collectTextsAll_eq item,
      Block.collectTextsItems_eq items]

end

end Texts

/-! ### A collecting goes through the listing -/

section Listing

variable {m : Type → Type} [Monad m] [LawfulMonad m] {α : Type}

section Blocks

variable (f : Block → m (List α))

mutual

theorem Block.collect_eq : ∀ (p : Address) (b : Block),
    Block.collect f b = collectEach f ((Block.occurrences p b).map Prod.snd)
  | p, .leaf node => (collectEach_singleton f _).symm
  | p, .carrier kind text => (collectEach_singleton f _).symm
  | p, .list type items => by
    rw [Block.collect, Block.collectItems_eq p 0 items, Block.occurrences, List.map_append,
      collectEach_append, List.map_singleton, collectEach_singleton]
  | p, .quote blocks => by
    rw [Block.collect, Block.collectAll_eq p 0 blocks, Block.occurrences, List.map_append,
      collectEach_append, List.map_singleton, collectEach_singleton]

theorem Block.collectAll_eq : ∀ (p : Address) (i : Nat) (bs : List Block),
    Block.collectAll f bs = collectEach f ((Block.occurrencesAll p i bs).map Prod.snd)
  | p, i, [] => rfl
  | p, i, b :: bs => by
    rw [Block.collectAll, Block.collect_eq (p ++ [i]) b, Block.collectAll_eq p (i + 1) bs,
      Block.occurrencesAll, List.map_append, collectEach_append]

theorem Block.collectItems_eq : ∀ (p : Address) (i : Nat) (items : List (List Block)),
    Block.collectItems f items = collectEach f ((Block.occurrencesItems p i items).map Prod.snd)
  | p, i, [] => rfl
  | p, i, item :: items => by
    rw [Block.collectItems, Block.collectAll_eq (p ++ [i]) 0 item,
      Block.collectItems_eq p (i + 1) items, Block.occurrencesItems, List.map_append,
      collectEach_append]

end

theorem Document.collectBlocks_eq (doc : Document) :
    doc.collectBlocks f = collectEach f (doc.occurrences.map Prod.snd) :=
  Block.collectAll_eq f [] 0 doc

end Blocks

section Inlines

variable (f : Inline → m (List α))

mutual

theorem Inline.collect_eq : ∀ (p : Address) (x : Inline),
    Inline.collect f x = collectEach f ((Rose.places p (x.rose id)).map fun o => o.2.value)
  | p, .leaf node => (collectEach_singleton f _).symm
  | p, .span kind children => by
    rw [Inline.collect, Inline.collectAll_rose_eq p 0 children, Inline.rose, Rose.places,
      List.map_append, collectEach_append, List.map_singleton, collectEach_singleton]
    rfl

theorem Inline.collectAll_rose_eq : ∀ (p : Address) (i : Nat) (xs : List Inline),
    Inline.collectAll f xs =
      collectEach f ((Rose.placesAll p i (Inline.roseAll id xs)).map fun o => o.2.value)
  | p, i, [] => rfl
  | p, i, x :: xs => by
    rw [Inline.collectAll, Inline.collect_eq (p ++ [i]) x, Inline.collectAll_rose_eq p (i + 1) xs,
      Inline.roseAll, Rose.placesAll, List.map_append, collectEach_append]

end

theorem Inline.collectAll_eq (p : Address) (i : Nat) (xs : List Inline) :
    Inline.collectAll f xs = collectEach f ((Inline.occurrencesAll p i xs).map Prod.snd) := by
  rw [Inline.collectAll_rose_eq f p i xs, Inline.occurrencesAll, List.map_map]
  rfl

theorem Block.collectText_eq (p : Address) (b : Block) :
    Block.collectText (Inline.collectAll f) b =
      collectEach f ((Inline.occurrencesAll p 0 b.text).map Prod.snd) := by
  cases b with
  | carrier kind text => exact Inline.collectAll_eq f p 0 text
  | leaf | list | quote => rfl

theorem Document.collectInlines_eq (doc : Document) :
    doc.collectInlines f = collectEach f (doc.inlineOccurrences.map Prod.snd) := by
  calc doc.collectInlines f
      = Block.collectAll (Block.collectText (Inline.collectAll f)) doc :=
        Block.collectTextsAll_eq (Inline.collectAll f) doc
    _ = collectEach (fun o => Block.collectText (Inline.collectAll f) o.2) doc.occurrences := by
        rw [Block.collectAll_eq _ [] 0 doc, collectEach_map, Document.occurrences]
    _ = collectEach (fun o => collectEach f ((Inline.occurrencesAll o.1 0 o.2.text).map Prod.snd))
          doc.occurrences :=
        congrArg (collectEach · doc.occurrences)
          (funext fun o => Block.collectText_eq f o.1 o.2)
    _ = collectEach f (doc.inlineOccurrences.map Prod.snd) := by
        rw [collectEach_flatMap, Document.inlineOccurrences, List.map_flatMap]

end Inlines

end Listing

/-! ### The answers of a collecting -/

open Dialogue

section Answers

variable {N α : Type}

/-- Where the answer about a node says what is collected from it, that is what comes together. -/
theorem transcript_collectEach {A : Type} (h : N → A → List α) {nodes : List N}
    {log : List (N × A)} {out : List α} :
    (collectEach (fun node => question node >>= fun a => pure (h node a)) nodes).Transcript log out →
      log.map Prod.fst = nodes ∧ out = log.flatMap fun c => h c.1 c.2 := by
  induction nodes generalizing log out with
  | nil =>
    intro htranscript
    obtain ⟨rfl, rfl⟩ := transcript_pure.mp htranscript
    exact ⟨rfl, rfl⟩
  | cons node nodes ih =>
    intro htranscript
    obtain ⟨first, rest, here, later, rfl, hfirst, hrest, rfl⟩ := transcript_both.mp htranscript
    obtain ⟨asked, nothing, answer, rfl, hasked, hkept⟩ := transcript_bind.mp hfirst
    obtain rfl := transcript_question.mp hasked
    obtain ⟨rfl, rfl⟩ := transcript_pure.mp hkept
    obtain ⟨hnodes, rfl⟩ := ih hrest
    simp [hnodes]

theorem transcript_collected {nodes : List N} {log : List (N × List α)} {out : List α}
    (htranscript : (collectEach question nodes).Transcript log out) :
    log.map Prod.fst = nodes ∧ out = log.flatMap Prod.snd := by
  have answered : (question : N → Dialogue N (List α) (List α)) =
      fun node => question node >>= fun a => pure a := funext fun node => (bind_pure _).symm
  rw [answered] at htranscript
  exact transcript_collectEach (fun _ a => a) htranscript

/-- The nodes for which the answer was yes. -/
def accepted (log : List (N × Bool)) : List N := (log.filter Prod.snd).map Prod.fst

theorem flatMap_keep (log : List (N × Bool)) :
    (log.flatMap fun c => if c.2 then [c.1] else []) = accepted log := by
  induction log with
  | nil => rfl
  | cons c log ih =>
    obtain ⟨node, answer⟩ := c
    cases answer <;> simp [accepted, ih]

theorem transcript_kept {nodes : List N} {log : List (N × Bool)} {out : List N}
    (htranscript : (collectEach (keepIf question) nodes).Transcript log out) :
    log.map Prod.fst = nodes ∧ out = accepted log := by
  obtain ⟨hnodes, rfl⟩ :=
    transcript_collectEach (fun node (answer : Bool) => if answer then [node] else []) htranscript
  exact ⟨hnodes, flatMap_keep log⟩

end Answers

/-! ### The calls of a collecting -/

namespace Walk

theorem reads_collectBlocks (α : Type) (doc : Document) :
    (collectBlocks α doc).Reads (doc.occurrences.map Prod.snd) (List.flatMap Prod.snd) := by
  intro log out h
  rw [dialogue, collectBlocks, Document.collectBlocks_eq] at h
  exact transcript_collected h

theorem reads_collectInlines (α : Type) (doc : Document) :
    (collectInlines α doc).Reads (doc.inlineOccurrences.map Prod.snd) (List.flatMap Prod.snd) := by
  intro log out h
  rw [dialogue, collectInlines, Document.collectInlines_eq] at h
  exact transcript_collected h

theorem reads_filterBlocks (doc : Document) :
    (filterBlocks doc).Reads (doc.occurrences.map Prod.snd) accepted := by
  intro log out h
  rw [dialogue, filterBlocks, Document.filterBlocks, Document.collectBlocks_eq] at h
  exact transcript_kept h

theorem reads_filterInlines (doc : Document) :
    (filterInlines doc).Reads (doc.inlineOccurrences.map Prod.snd) accepted := by
  intro log out h
  rw [dialogue, filterInlines, Document.filterInlines, Document.collectInlines_eq] at h
  exact transcript_kept h

end Walk

/-- **A collecting or filtering visits everything once, in post-order.** The listings have each block
and each inline of a document under its address, once and in post-order. Collecting calls its function
on what is listed and on nothing else, in the order of the listing, and joins the results in the order
of the calls; filtering gives, in that order, the nodes that were accepted, as often as they occur. -/
theorem Document.collecting_visits (doc : Document) :
    PostOrderListing doc.occurrences (fun p b => doc.at? p = some b) ∧
    PostOrderListing doc.inlineOccurrences doc.HasInline ∧
    (∀ α, (Walk.collectBlocks α doc).VisitsAll (doc.occurrences.map Prod.snd)
      (List.flatMap Prod.snd)) ∧
    (∀ α, (Walk.collectInlines α doc).VisitsAll (doc.inlineOccurrences.map Prod.snd)
      (List.flatMap Prod.snd)) ∧
    (Walk.filterBlocks doc).VisitsAll (doc.occurrences.map Prod.snd) accepted ∧
    (Walk.filterInlines doc).VisitsAll (doc.inlineOccurrences.map Prod.snd) accepted := by
  refine ⟨doc.blockListing, doc.inlineListing, ?_, ?_, ?_, ?_⟩
  · intro α
    exact Walk.Natural.visitsAll (Walk.natural_collectBlocks α doc) (Walk.reads_collectBlocks α doc)
  · intro α
    exact Walk.Natural.visitsAll (Walk.natural_collectInlines α doc)
      (Walk.reads_collectInlines α doc)
  · exact Walk.Natural.visitsAll (Walk.natural_filterBlocks doc) (Walk.reads_filterBlocks doc)
  · exact Walk.Natural.visitsAll (Walk.natural_filterInlines doc) (Walk.reads_filterInlines doc)

/-- Gives the number of the call. -/
def numberCalls {N : Type} (_ : N) : Fallible String Nat (List Nat) :=
  ExceptT.mk fun count => (.ok [count], count + 1)

/-- Of two equal texts, the one inside a span is visited before the span, the other one after it. -/
theorem Document.collecting_visits_nested :
    let doc : Document := [.quote [.list .ordered [[], [.paragraph
      [.span .strong [.text "a"], .text "a"]]]], .thematicBreak]
    let walk := Walk.collectInlines Nat doc
    doc.inlineOccurrences.map Prod.fst = [[0, 0, 1, 0, 0, 0], [0, 0, 1, 0, 0], [0, 0, 1, 0, 1]] ∧
    (∀ c ∈ (walk.tryRun numberCalls 0).2.calls, ∃ a, c.outcome = .ok a) ∧
    ∃ calls s', (doc.collectInlines numberCalls).run.run 0 = (.ok [0, 1, 2], s') ∧
      walk.tryRun numberCalls 0 = (.ok [0, 1, 2], ⟨s', calls.map (Call.map .ok)⟩) ∧
      calls.map Call.node = doc.inlineOccurrences.map Prod.snd ∧ Chain numberCalls 0 calls s' := by
  intro doc walk
  have hcalls : (walk.tryRun numberCalls 0).2.calls = [⟨.text "a", 0, .ok [0], 1⟩,
      ⟨.span .strong [.text "a"], 1, .ok [1], 2⟩, ⟨.text "a", 2, .ok [2], 3⟩] := rfl
  have hok : ∀ c ∈ (walk.tryRun numberCalls 0).2.calls, ∃ a, c.outcome = .ok a := by
    intro c hc
    rw [hcalls, List.mem_cons, List.mem_cons, List.mem_singleton] at hc
    rcases hc with rfl | rfl | rfl <;> exact ⟨_, rfl⟩
  refine ⟨rfl, hok, ?_⟩
  obtain ⟨-, -, -, inlines, -, -⟩ := Document.collecting_visits doc
  obtain ⟨calls, s', hrun, htry, hnodes, hchain⟩ := (inlines Nat).fallible numberCalls 0 hok
  have hvalue : (calls.map Call.exchange).flatMap Prod.snd = [0, 1, 2] :=
    Except.ok.inj (congrArg Prod.fst hrun).symm
  rw [hvalue] at hrun htry
  exact ⟨calls, s', hrun, htry, hnodes, hchain⟩

end MarkdownTree
