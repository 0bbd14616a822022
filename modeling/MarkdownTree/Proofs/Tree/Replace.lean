import MarkdownTree.Proofs.Tree.Occurrence
import MarkdownTree.Proofs.Walk.ByPlace
import MarkdownTree.Proofs.Walk.Natural

/-!
The calls of a replacing of blocks. Main statement: the function is called once for each block of the
given document, in post-order, a container with the results for its child blocks in their places, and
the new document is the results for the top-level blocks (`Document.replaceBlocks_calls`).
-/

namespace MarkdownTree

/-! ### Blocks with results in the places of their child blocks -/

/-- The results for blocks under an address, the first of which has a given index, joined in order. -/
def Block.joined (result : Address → List Block) (p : Address) (i : Nat) (bs : List Block) :
    List Block :=
  (bs.zipIdx i).flatMap fun b => result (p ++ [b.2])

/-- A container at an address around the results for its child blocks, with the kind it has and as
many items; any other block as it is. -/
def Block.rebuilt (result : Address → List Block) (p : Address) : Block → Block
  | .leaf node => .leaf node
  | .carrier kind text => .carrier kind text
  | .list type items =>
    .list type (items.zipIdx.map fun item => Block.joined result (p ++ [item.2]) 0 item.1)
  | .quote blocks => .quote (Block.joined result p 0 blocks)

/-- What is asked about a block at an address. -/
def Block.questionAt (result : Address → List Block) (o : Address × Block) : Block :=
  o.2.rebuilt result o.1

/-! ### The dialogue of a replacing -/

open Dialogue

mutual

theorem Block.byPlace_replace : ∀ (p : Address) (b : Block) {log : List (Block × List Block)}
    {out : List Block}, (Block.replace question b).Transcript log out →
      ByPlace Block.questionAt log (Block.occurrences p b) fun result => out = result p
  | p, .leaf node, log, out, h => by
    obtain rfl := transcript_question.mp h
    exact .single fun result => rfl
  | p, .carrier kind text, log, out, h => by
    obtain rfl := transcript_question.mp h
    exact .single fun result => rfl
  | p, .list type items, log, out, h => by
    obtain ⟨first, rest, items', rfl, hfirst, hrest⟩ := transcript_bind.mp h
    obtain rfl := transcript_question.mp hrest
    have inside := Block.byPlace_replaceItems p 0 items hfirst
    refine inside.snoc ?_
    rintro result rfl
    rfl
  | p, .quote blocks, log, out, h => by
    obtain ⟨first, rest, blocks', rfl, hfirst, hrest⟩ := transcript_bind.mp h
    obtain rfl := transcript_question.mp hrest
    have inside := Block.byPlace_replaceAll p 0 blocks hfirst
    refine inside.snoc ?_
    rintro result rfl
    rfl

theorem Block.byPlace_replaceAll : ∀ (p : Address) (i : Nat) (bs : List Block)
    {log : List (Block × List Block)} {out : List Block},
    (Block.replaceAll question bs).Transcript log out →
      ByPlace Block.questionAt log (Block.occurrencesAll p i bs) fun result =>
        out = Block.joined result p i bs
  | p, i, [], log, out, h => by
    obtain ⟨rfl, rfl⟩ := transcript_pure.mp h
    exact .nil fun result => rfl
  | p, i, b :: bs, log, out, h => by
    obtain ⟨first, rest, cs, ds, rfl, hfirst, hrest, rfl⟩ := transcript_both.mp h
    have here := Block.byPlace_replace (p ++ [i]) b hfirst
    have later := Block.byPlace_replaceAll p (i + 1) bs hrest
    refine (here.append later).mono ?_
    rintro result ⟨rfl, rfl⟩
    simp [Block.joined]

theorem Block.byPlace_replaceItems : ∀ (p : Address) (i : Nat) (items : List (List Block))
    {log : List (Block × List Block)} {out : List (List Block)},
    (Block.replaceItems question items).Transcript log out →
      ByPlace Block.questionAt log (Block.occurrencesItems p i items) fun result =>
        out = (items.zipIdx i).map fun item => Block.joined result (p ++ [item.2]) 0 item.1
  | p, i, [], log, out, h => by
    obtain ⟨rfl, rfl⟩ := transcript_pure.mp h
    exact .nil fun result => rfl
  | p, i, item :: items, log, out, h => by
    obtain ⟨first, rest, cs, ds, rfl, hfirst, hrest, rfl⟩ := transcript_both.mp h
    have here := Block.byPlace_replaceAll (p ++ [i]) 0 item hfirst
    have later := Block.byPlace_replaceItems p (i + 1) items hrest
    refine (here.append later).mono ?_
    rintro result ⟨rfl, rfl⟩
    simp

end

/-! ### The calls of a replacing -/

/-- How a replacing of the blocks of `doc` by `f` goes that turns the state `s` into `s'` and makes
`doc'`: the calls it makes, and the result for each address. -/
structure Document.Replacing {ε σ : Type} (doc : Document) (f : Block → Fallible ε σ (List Block))
    (s : σ) (doc' : Document) (s' : σ) (calls : List (Call σ Block (List Block)))
    (result : Address → List Block) : Prop where
  run : (Walk.replaceBlocks doc).tryRun f s = (.ok doc', ⟨s', calls.map (Call.map .ok)⟩)
  /-- Each call works on from the state that the one before it left. -/
  chain : Chain f s calls s'
  /-- There is one call for each block of `doc`, about that block: a container with the results for
  its child blocks in their places, another block as it is. -/
  asked : calls.map Call.node = doc.occurrences.map fun o => o.2.rebuilt result o.1
  answered : calls.map Call.outcome = doc.occurrences.map fun o => result o.1
  /-- The blocks of `doc` are those that have an address. -/
  complete : ∀ p b, (p, b) ∈ doc.occurrences ↔ doc.at? p = some b
  ordered : (doc.occurrences.map Prod.fst).Pairwise Address.PostOrder
  /-- The new document is the results for the top-level blocks. -/
  made : doc' = Block.joined result [] 0 doc

/-- **The calls of a replacing.** Where a replacing makes a document, its function has been called
once for each block of the given document and for no other, in post-order. -/
theorem Document.replaceBlocks_calls {ε σ : Type} (f : Block → Fallible ε σ (List Block))
    (doc doc' : Document) (s s' : σ) (h : (doc.replaceBlocks f).run.run s = (.ok doc', s')) :
    ∃ calls result, doc.Replacing f s doc' s' calls result := by
  obtain ⟨calls, result, hrun, hchain, hasked, hanswered, hmade⟩ :=
    Walk.Natural.exists_callsByPlace (Walk.natural_replaceBlocks doc) doc.nodup_occurrences
      (Block.byPlace_replaceAll [] 0 doc) h
  exact ⟨calls, result, hrun, hchain, hasked, hanswered, fun p b => Document.mem_occurrences,
    doc.pairwise_occurrences, hmade⟩

/-- Doubles breaks, takes quotes apart, and counts. -/
def doubleBreaks (b : Block) : Fallible String Nat (List Block) :=
  ExceptT.mk fun count =>
    match b with
    | .thematicBreak => (.ok [.thematicBreak, .thematicBreak], count + 1)
    | .quote blocks => (.ok blocks, count + 1)
    | b => (.ok [b], count + 1)

theorem Document.replaceBlocks_calls_nested :
    let doc : Document := [.quote [.list .ordered [[.thematicBreak], []], .html "a"], .thematicBreak]
    let doc' : Document := [.list .ordered [[.thematicBreak, .thematicBreak], []], .html "a",
      .thematicBreak, .thematicBreak]
    (doc.replaceBlocks doubleBreaks).run.run 0 = (.ok doc', 5) ∧
      ∃ calls result, doc.Replacing doubleBreaks 0 doc' 5 calls result :=
  ⟨rfl, Document.replaceBlocks_calls doubleBreaks _ _ 0 5 rfl⟩

end MarkdownTree
