import MarkdownTree.Proofs.Walk.Calls
import MarkdownTree.Proofs.Walk.Natural

/-!
Failing walks. Main statement: each of the seven walks that take a function ends with the function's
first error (`walks_abortAtFirstError`).
-/

namespace MarkdownTree

open Walk

/-- **Every walk ends with the first error of its function.** Without an error the walk gives what it
gives by a function that cannot fail, after the same calls and in the same state; with one, it makes
the same calls up to the failing one, and then gives that error and leaves that state. -/
theorem walks_abortAtFirstError :
    (∀ doc, (replaceBlocks doc).AbortsAtFirstError) ∧
    (∀ doc, (replaceInlines doc).AbortsAtFirstError) ∧
    (∀ x, (replaceInline x).AbortsAtFirstError) ∧
    (∀ α doc, (collectBlocks α doc).AbortsAtFirstError) ∧
    (∀ α doc, (collectInlines α doc).AbortsAtFirstError) ∧
    (∀ doc, (filterBlocks doc).AbortsAtFirstError) ∧
    (∀ doc, (filterInlines doc).AbortsAtFirstError) := by
  refine ⟨?_, ?_, ?_, ?_, ?_, ?_, ?_⟩
  · intro doc
    exact Natural.abortsAtFirstError (natural_replaceBlocks doc)
  · intro doc
    exact Natural.abortsAtFirstError (natural_replaceInlines doc)
  · intro x
    exact Natural.abortsAtFirstError (natural_replaceInline x)
  · intro α doc
    exact Natural.abortsAtFirstError (natural_collectBlocks α doc)
  · intro α doc
    exact Natural.abortsAtFirstError (natural_collectInlines α doc)
  · intro doc
    exact Natural.abortsAtFirstError (natural_filterBlocks doc)
  · intro doc
    exact Natural.abortsAtFirstError (natural_filterInlines doc)

/-! ### A walk that fails -/

/-- Keeps every block, and counts. -/
def countBlocks (b : Block) : StateM Nat (List Block) := fun count => ([b], count + 1)

/-- Keeps every block that is no quote, and counts them all. -/
def refuseQuotes (b : Block) : Fallible String Nat (List Block) :=
  ExceptT.mk fun count =>
    match b with
    | .quote _ => (.error "a quote", count + 1)
    | b => (.ok [b], count + 1)

theorem completes_refuseQuotes : Completes countBlocks refuseQuotes := by
  intro b s a s' h
  cases b with
  | quote blocks => cases h
  | leaf node | carrier kind text | list type items => cases h; rfl

/-- The quote is the second of four blocks that the walk would visit; its refusal ends the walk. -/
theorem walks_abort_at_quote :
    Completes countBlocks refuseQuotes ∧
    (replaceBlocks [.quote [.thematicBreak], .html "a", .html "b"]).AbortLaw
      refuseQuotes countBlocks 0 ∧
    (replaceBlocks [.quote [.thematicBreak], .html "a", .html "b"]).tryRun refuseQuotes 0 =
      (.error "a quote", ⟨2, [⟨.thematicBreak, 0, .ok [.thematicBreak], 1⟩,
        ⟨.quote [.thematicBreak], 1, .error "a quote", 2⟩]⟩) :=
  ⟨completes_refuseQuotes,
    walks_abortAtFirstError.1 _ refuseQuotes countBlocks completes_refuseQuotes 0, rfl⟩

end MarkdownTree
