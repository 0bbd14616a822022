import MarkdownTree.Proofs.Address

/-!
Trees with any number of children and a value at each node, whatever the values are. A node is found
by its address, the indices of the children to follow from the top. Main statement: `Rose.places` lists
every address once, in post-order, with the tree that is there (`Rose.mem_places`,
`Rose.pairwise_places`).
-/

namespace MarkdownTree

open Address

/-- A value and trees below it. -/
inductive Rose (α : Type) where
  | node (value : α) (children : List (Rose α))

namespace Rose

variable {α : Type}

/-- What holds of a tree if it holds of its children holds of all trees. -/
@[elab_as_elim]
theorem induction {P : Rose α → Prop} (node : ∀ a ts, (∀ t ∈ ts, P t) → P (.node a ts)) : ∀ t, P t
  | .node a ts => node a ts fun t _ => Rose.induction node t

def value : Rose α → α
  | .node a _ => a

def children : Rose α → List (Rose α)
  | .node _ ts => ts

/-! ### Finding a node -/

/-- The tree at an address of a tree. -/
def at? : Address → Rose α → Option (Rose α)
  | [], t => some t
  | i :: p, t => t.children[i]?.bind (at? p)

@[simp] theorem at?_nil (t : Rose α) : at? [] t = some t := rfl

@[simp] theorem at?_cons (i : Nat) (p : Address) (a : α) (ts : List (Rose α)) :
    at? (i :: p) (.node a ts) = ts[i]?.bind (at? p) := rfl

theorem at?_append : ∀ {p : Address} {t u : Rose α}, at? p t = some u →
    ∀ q : Address, at? (p ++ q) t = at? q u
  | [], t, u, h, q => by
    obtain rfl := Option.some.inj h
    rfl
  | i :: p, .node a ts, u, h, q => by
    obtain ⟨v, hv, hu⟩ := Option.bind_eq_some_iff.mp h
    rw [List.cons_append, at?_cons, show ts[i]? = some v from hv]
    exact at?_append hu q

/-! ### Listing all nodes -/

mutual

/-- The trees in a tree at an address, itself the last, each with its own address. -/
def places : Address → Rose α → List (Address × Rose α)
  | p, .node a ts => placesAll p 0 ts ++ [(p, .node a ts)]

/-- The trees in trees in order, the first of which has a given index under an address. -/
def placesAll : Address → Nat → List (Rose α) → List (Address × Rose α)
  | _, _, [] => []
  | p, i, t :: ts => places (p ++ [i]) t ++ placesAll p (i + 1) ts

end

theorem placesAll_eq (p : Address) (i : Nat) (ts : List (Rose α)) :
    placesAll p i ts = listChildren places p i ts := by
  induction ts generalizing i with
  | nil => rfl
  | cons t ts ih => rw [placesAll, ih, listChildren]

section Complete

variable {q : Address} {u : Rose α}

theorem mem_places (p : Address) (t : Rose α) :
    (q, u) ∈ places p t ↔ ∃ r, q = p ++ r ∧ at? r t = some u := by
  induction t using Rose.induction generalizing p with
  | node a ts ih =>
    rw [places, placesAll_eq, List.mem_append, mem_listChildren ih, List.mem_singleton, or_comm,
      exists_at?_iff (at?_nil _)]
    simp [Option.bind_eq_some_iff]

theorem mem_placesAll (p : Address) (i : Nat) (ts : List (Rose α)) :
    (q, u) ∈ placesAll p i ts ↔ ∃ k r, q = p ++ (i + k) :: r ∧ ts[k]?.bind (at? r) = some u := by
  simp only [placesAll_eq, Option.bind_eq_some_iff]
  exact mem_listChildren (fun t _ p => mem_places p t) p i

end Complete

theorem prefix_of_mem_places {p : Address} {t : Rose α} {o : Address × Rose α}
    (h : o ∈ places p t) : ∃ r, o.1 = p ++ r := by
  obtain ⟨r, hr, -⟩ := (mem_places p t).mp h
  exact ⟨r, hr⟩

theorem pairwise_places (p : Address) (t : Rose α) :
    (places p t).Pairwise fun o o' => o.1.PostOrder o'.1 := by
  induction t using Rose.induction generalizing p with
  | node a ts ih =>
    rw [places, placesAll_eq]
    exact pairwise_postOrder prefix_of_mem_places (p, .node a ts) ih

theorem pairwise_placesAll (p : Address) (i : Nat) (ts : List (Rose α)) :
    (placesAll p i ts).Pairwise fun o o' => o.1.PostOrder o'.1 := by
  rw [placesAll_eq]
  exact pairwise_listChildren prefix_of_mem_places .inr (fun t _ p => pairwise_places p t) p i

/-- All nodes of a tree, from its top. -/
theorem postOrderListing (t : Rose α) :
    PostOrderListing (places [] t) fun p u => at? p t = some u := by
  refine .of_pairwise ?_ (List.pairwise_map.mpr (pairwise_places [] t))
  intro p u
  rw [mem_places]
  constructor
  · rintro ⟨r, rfl, h⟩
    exact h
  · intro h
    exact ⟨p, rfl, h⟩

end Rose

end MarkdownTree
