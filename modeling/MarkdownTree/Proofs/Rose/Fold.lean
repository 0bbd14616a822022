import MarkdownTree.Proofs.Rose
import MarkdownTree.Proofs.Walk.ByPlace
import MarkdownTree.Proofs.Walk.Early

/-!
Folding a tree with values into one result, by a function that gives a result for the value of a node
and the results for its children. The function is called only for nodes whose value it is meant for;
the other nodes have a default result, but their children are folded all the same. Main statement:
`Walk.exists_foldRose_goesBy`, which says of a run, failing or not, what each call is about.
-/

namespace MarkdownTree

variable {m n : Type → Type} {α R σ ε : Type}

namespace Rose

/-! ### The fold -/

section Fold

variable [Monad m] (f : α → List R → m R)

mutual

/-- The result for a tree, after the results for its children. -/
def fold : Rose α → m R
  | .node a ts => do
    let results ← foldAll ts
    f a results

/-- The results for trees in order. -/
def foldAll : List (Rose α) → m (List R)
  | [] => pure []
  | t :: ts => do
    let result ← fold t
    let results ← foldAll ts
    pure (result :: results)

end

end Fold

section Natural

variable [Monad m] [Monad n] (φ : MonadHom m n) (f : α → List R → m R)

mutual

theorem map_fold : ∀ t : Rose α, φ.map (fold f t) = fold (fun a results => φ.map (f a results)) t
  | .node a ts => by rw [fold, fold, φ.map_bind, map_foldAll ts]

theorem map_foldAll : ∀ ts : List (Rose α),
    φ.map (foldAll f ts) = foldAll (fun a results => φ.map (f a results)) ts
  | [] => φ.map_pure []
  | t :: ts => by simp only [foldAll, φ.map_bind, φ.map_pure, map_fold t, map_foldAll ts]

end

end Natural

end Rose

/-! ### The fold as a walk -/

section Calls

variable (asks : α → Bool) (default : R)

/-- The step of a fold: the function is asked about some values, the others have the default result. -/
def Rose.step [Monad m] (f : α × List R → m R) (a : α) (results : List R) : m R :=
  if asks a then f (a, results) else pure default

/-- The fold of a tree, as a walk that hands over a value with the results for the children. -/
def Walk.foldRose (t : Rose α) : Walk (α × List R) R R := fun _ _ f => t.fold (Rose.step asks default f)

theorem Walk.natural_foldRose (t : Rose α) : (foldRose asks default t).Natural := by
  intro m n _ _ φ f
  have step : (fun a results => φ.map (Rose.step asks default f a results)) =
      Rose.step asks default fun c => φ.map (f c) := by
    funext a results
    unfold Rose.step
    split
    · rfl
    · exact φ.map_pure default
  rw [foldRose, Rose.map_fold, step, foldRose]

namespace Rose

/-! ### What is asked, by place -/

/-- The result for a tree at an address: that of its call, or the default one without a call. -/
def resultAt (results : Address → R) (p : Address) (t : Rose α) : R :=
  if asks t.value then results p else default

/-- The results for trees, the first of which has a given index under an address. -/
def resultsAt (results : Address → R) (p : Address) (i : Nat) (ts : List (Rose α)) : List R :=
  (ts.zipIdx i).map fun t => resultAt asks default results (p ++ [t.2]) t.1

/-- What the function is called with for a tree at an address: its value, and one result for each of
its children, in order. -/
def questionAt (results : Address → R) (o : Address × Rose α) : α × List R :=
  (o.2.value, resultsAt asks default results o.1 0 o.2.children)

/-- The places that the function is asked about, among some places. -/
def asked (places : List (Address × Rose α)) : List (Address × Rose α) :=
  places.filter fun o => asks o.2.value

open Dialogue

mutual

theorem byPlace_fold : ∀ (p : Address) (t : Rose α) {log : List ((α × List R) × R)} {out : R},
    (fold (step asks default question) t).Transcript log out →
      ByPlace (questionAt asks default) log (asked asks (places p t)) fun results =>
        out = resultAt asks default results p t
  | p, .node a ts, log, out, h => by
    obtain ⟨first, last, results, rfl, hfirst, hlast⟩ := transcript_bind.mp h
    have below := byPlace_foldAll p 0 ts hfirst
    rw [places, asked, List.filter_append]
    by_cases ha : asks a = true
    · have here : asked asks [(p, Rose.node a ts)] = [(p, .node a ts)] :=
        List.filter_cons_of_pos ha
      rw [step, if_pos ha] at hlast
      obtain rfl := transcript_question.mp hlast
      refine (here ▸ below.snoc ?_).mono ?_
      · rintro result rfl
        rfl
      · rintro result rfl
        exact (if_pos ha).symm
    · have here : asked asks [(p, Rose.node a ts)] = [] := List.filter_cons_of_neg ha
      rw [step, if_neg ha] at hlast
      obtain ⟨rfl, rfl⟩ := transcript_pure.mp hlast
      refine (here ▸ below.append (.nil fun _ => trivial)).mono ?_
      intro result _
      exact (if_neg ha).symm

theorem byPlace_foldAll : ∀ (p : Address) (i : Nat) (ts : List (Rose α))
    {log : List ((α × List R) × R)} {out : List R},
    (foldAll (step asks default question) ts).Transcript log out →
      ByPlace (questionAt asks default) log (asked asks (placesAll p i ts)) fun results =>
        out = resultsAt asks default results p i ts
  | p, i, [], log, out, h => by
    obtain ⟨rfl, rfl⟩ := transcript_pure.mp h
    exact .nil fun _ => rfl
  | p, i, t :: ts, log, out, h => by
    obtain ⟨first, rest, result, results, rfl, hfirst, hrest, rfl⟩ := transcript_both.mp h
    rw [placesAll, asked, List.filter_append]
    have here := byPlace_fold (p ++ [i]) t hfirst
    have later := byPlace_foldAll p (i + 1) ts hrest
    refine (here.append later).mono ?_
    rintro answers ⟨rfl, rfl⟩
    simp [resultsAt]

end

/-- What is asked and answered about a tree: the questions for its places in post-order, each with the
result for the place. -/
def exchanges (results : Address → R) (t : Rose α) : List ((α × List R) × R) :=
  (asked asks (places [] t)).map fun o => (questionAt asks default results o, results o.1)

end Rose

/-- **The calls of a fold.** -/
theorem Walk.exists_foldRose_goesBy (t : Rose α) (f : α × List R → Fallible ε σ R) (s : σ) :
    ∃ results, GoesBy f s ((foldRose asks default t).tryRun f s) (t.exchanges asks default results)
      (t.resultAt asks default results []) := by
  obtain ⟨log, out, htranscript, hgoes⟩ :=
    Natural.exists_goesBy (natural_foldRose asks default t) default f s
  have once : ((Rose.asked asks (Rose.places [] t)).map Prod.fst).Nodup :=
    (Rose.postOrderListing t).once.sublist (List.filter_sublist.map _)
  have : Inhabited R := ⟨default⟩
  obtain ⟨results, rfl, rfl⟩ := (Rose.byPlace_fold asks default [] t htranscript).exists_result once
  exact ⟨results, hgoes⟩

end Calls

end MarkdownTree
