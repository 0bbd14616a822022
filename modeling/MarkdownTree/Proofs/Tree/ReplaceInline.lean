import MarkdownTree.Proofs.Tree.InlineOccurrence
import MarkdownTree.Proofs.Walk.ByPlace
import MarkdownTree.Proofs.Walk.Natural

/-!
The calls of a replacing of one inline. Main statement: the function is called once for each inline of the
given tree, in post-order, a span with the results for its children around which it is built again, and
what takes the place of the tree is the result for its top (`Inline.replace_calls`).
-/

namespace MarkdownTree

/-! ### The inlines of an inline -/

namespace Inline

/-- The inlines of an inline at an address, itself the last, each with its own address. -/
def occurrences (p : Address) (x : Inline) : List (Address × Inline) :=
  (Rose.places p (x.rose id)).map fun o => (o.1, o.2.value)

theorem occurrences_leaf (p : Address) (node : LeafInline) :
    occurrences p (.leaf node) = [(p, .leaf node)] := rfl

theorem occurrences_span (p : Address) (kind : Span) (children : List Inline) :
    occurrences p (.span kind children) =
      occurrencesAll p 0 children ++ [(p, .span kind children)] := by
  rw [occurrences, rose, Rose.places, List.map_append]
  rfl

theorem occurrencesAll_cons (p : Address) (i : Nat) (x : Inline) (xs : List Inline) :
    occurrencesAll p i (x :: xs) = occurrences (p ++ [i]) x ++ occurrencesAll p (i + 1) xs := by
  rw [occurrencesAll, roseAll, Rose.placesAll, List.map_append]
  rfl

theorem mem_occurrences {x y : Inline} {q : Address} :
    (q, y) ∈ x.occurrences [] ↔ at? q x = some y := by
  rw [occurrences, List.mem_map]
  constructor
  · rintro ⟨⟨q', t⟩, hmem, heq⟩
    obtain ⟨rfl, rfl⟩ := Prod.mk.inj heq
    have ht := ((Rose.postOrderListing (x.rose id)).complete _ _).mp hmem
    rw [at?_rose, Option.map_eq_some_iff] at ht
    obtain ⟨z, hz, rfl⟩ := ht
    rw [hz, value_rose, id]
  · intro h
    refine ⟨(q, y.rose id), ?_, by rw [value_rose, id]⟩
    refine ((Rose.postOrderListing (x.rose id)).complete _ _).mpr ?_
    rw [at?_rose, h, Option.map_some]

theorem listing (x : Inline) :
    PostOrderListing (x.occurrences []) fun p y => at? p x = some y :=
  .of_pairwise (fun _ _ => mem_occurrences)
    (List.pairwise_map.mpr (List.pairwise_map.mpr (Rose.pairwise_places [] (x.rose id))))

/-! ### Inlines with results in the places of their children -/

/-- The results for inlines under an address, the first of which has a given index, joined in order. -/
def joined (result : Address → List Inline) (p : Address) (i : Nat) (xs : List Inline) :
    List Inline :=
  (xs.zipIdx i).flatMap fun x => result (p ++ [x.2])

/-- A span at an address around the results for its children, with the kind, title and url it has; a
leaf as it is. -/
def rebuilt (result : Address → List Inline) (p : Address) : Inline → Inline
  | .leaf node => .leaf node
  | .span kind children => .span kind (joined result p 0 children)

/-- What is asked about an inline at an address. -/
def questionAt (result : Address → List Inline) (o : Address × Inline) : Inline :=
  o.2.rebuilt result o.1

/-! ### The dialogue of a replacing -/

open Dialogue

mutual

theorem byPlace_replace : ∀ (p : Address) (x : Inline) {log : List (Inline × List Inline)}
    {out : List Inline}, (Inline.replace question x).Transcript log out →
      ByPlace questionAt log (occurrences p x) fun result => out = result p
  | p, .leaf node, log, out, h => by
    obtain rfl := transcript_question.mp h
    rw [occurrences_leaf]
    exact .single fun result => rfl
  | p, .span kind children, log, out, h => by
    obtain ⟨first, rest, children', rfl, hfirst, hrest⟩ := transcript_bind.mp h
    obtain rfl := transcript_question.mp hrest
    rw [occurrences_span]
    have inside := byPlace_replaceAll p 0 children hfirst
    refine inside.snoc ?_
    rintro result rfl
    rfl

theorem byPlace_replaceAll : ∀ (p : Address) (i : Nat) (xs : List Inline)
    {log : List (Inline × List Inline)} {out : List Inline},
    (Inline.replaceAll question xs).Transcript log out →
      ByPlace questionAt log (occurrencesAll p i xs) fun result => out = joined result p i xs
  | p, i, [], log, out, h => by
    obtain ⟨rfl, rfl⟩ := transcript_pure.mp h
    exact .nil fun result => rfl
  | p, i, x :: xs, log, out, h => by
    obtain ⟨first, rest, ys, zs, rfl, hfirst, hrest, rfl⟩ := transcript_both.mp h
    rw [occurrencesAll_cons]
    have here := byPlace_replace (p ++ [i]) x hfirst
    have later := byPlace_replaceAll p (i + 1) xs hrest
    refine (here.append later).mono ?_
    rintro result ⟨rfl, rfl⟩
    simp [joined]

end

/-! ### The calls of a replacing -/

/-- How a replacing of `x` by `f` goes that turns the state `s` into `s'` and makes `out`: the calls it
makes, and the result for each address. -/
structure Replacing {ε σ : Type} (x : Inline) (f : Inline → Fallible ε σ (List Inline)) (s : σ)
    (out : List Inline) (s' : σ) (calls : List (Call σ Inline (List Inline)))
    (result : Address → List Inline) : Prop where
  run : (Walk.replaceInline x).tryRun f s = (.ok out, ⟨s', calls.map (Call.map .ok)⟩)
  /-- Each call works on from the state that the one before it left. -/
  chain : Chain f s calls s'
  /-- The inlines of `x` are listed in post-order, each once with the address it has. -/
  listing : PostOrderListing (x.occurrences []) fun p y => at? p x = some y
  /-- There is one call for each inline of `x`, about that inline: a span with the results for its
  children in their places, a leaf as it is. -/
  asked : calls.map Call.node = (x.occurrences []).map fun o => o.2.rebuilt result o.1
  answered : calls.map Call.outcome = (x.occurrences []).map fun o => result o.1
  /-- What comes out is the result for `x` itself. -/
  made : out = result []

/-- **The calls of a replacing of an inline.** Where it comes to an end without an error, the function has
been called once for each inline of the given tree and for no other, in post-order. -/
theorem replace_calls {ε σ : Type} (f : Inline → Fallible ε σ (List Inline)) (x : Inline)
    (out : List Inline) (s s' : σ) (h : (x.replace f).run.run s = (.ok out, s')) :
    ∃ calls result, x.Replacing f s out s' calls result := by
  obtain ⟨calls, result, hrun, hchain, hasked, hanswered, hmade⟩ :=
    Walk.Natural.exists_callsByPlace (Walk.natural_replaceInline x) x.listing.once
      (byPlace_replace [] x) h
  exact ⟨calls, result, hrun, hchain, x.listing, hasked, hanswered, hmade⟩

/-- Doubles texts, takes emphasis apart, and counts. -/
def doubleTexts (x : Inline) : Fallible String Nat (List Inline) :=
  ExceptT.mk fun count =>
    match x with
    | .text literal => (.ok [.text literal, .text literal], count + 1)
    | .span .emphasis children => (.ok children, count + 1)
    | x => (.ok [x], count + 1)

/-- The link is handed over with four texts in it, where it had an emphasis and a text. -/
theorem replace_calls_nested :
    let target : Target := ⟨some "t", some "/a"⟩
    let x : Inline := .span (.link target) [.span .emphasis [.text "a"], .text "b"]
    let out : List Inline :=
      [.span (.link target) [.text "a", .text "a", .text "b", .text "b"]]
    (x.replace doubleTexts).run.run 0 = (.ok out, 4) ∧
      ∃ calls result, x.Replacing doubleTexts 0 out 4 calls result :=
  ⟨rfl, replace_calls doubleTexts _ _ 0 4 rfl⟩

end Inline

end MarkdownTree
