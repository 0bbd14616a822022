/-!
Addresses of the nodes of a tree: the indices to follow from the top. Two orders on them: post-order,
where a node comes after everything inside it, and pre-order, where it comes before. In both, of two
nodes neither of which is inside the other, the one with the smaller index at the parting comes first.
Where each of some nodes lists what is in it completely and in order, so do the nodes one after the other
(`mem_listChildren`, `pairwise_listChildren`).
-/

namespace MarkdownTree

/-- The indices to follow from the top of a tree to a node. -/
abbrev Address := List Nat

namespace Address

variable {p q r : Address} {i j : Nat}

/-- The node at `p` is strictly inside the node at `q`. -/
def Inside (p q : Address) : Prop := q <+: p ∧ p ≠ q

/-- Where the two addresses part, `p` takes the smaller index. -/
def LeftOf (p q : Address) : Prop :=
  ∃ shared i j p' q', p = shared ++ i :: p' ∧ q = shared ++ j :: q' ∧ i < j

def PostOrder (p q : Address) : Prop := p.Inside q ∨ p.LeftOf q

def PreOrder (p q : Address) : Prop := q.Inside p ∨ p.LeftOf q

/-! ### One index at a time -/

theorem inside_cons_cons : Inside (i :: p) (j :: q) ↔ i = j ∧ p.Inside q := by
  simp only [Inside, List.cons_prefix_cons, ne_eq, List.cons.injEq]
  constructor
  · rintro ⟨⟨rfl, h⟩, hne⟩
    exact ⟨rfl, h, fun e => hne ⟨rfl, e⟩⟩
  · rintro ⟨rfl, h, hne⟩
    exact ⟨⟨rfl, h⟩, fun e => hne e.2⟩

theorem not_nil_leftOf : ¬ LeftOf [] q := by
  rintro ⟨shared, i, j, p', q', h, -, -⟩
  simp at h

theorem not_leftOf_nil : ¬ LeftOf p [] := by
  rintro ⟨shared, i, j, p', q', -, h, -⟩
  simp at h

theorem leftOf_cons_cons : LeftOf (i :: p) (j :: q) ↔ i < j ∨ i = j ∧ p.LeftOf q := by
  constructor
  · rintro ⟨_ | ⟨k, shared⟩, a, b, p', q', hp, hq, hab⟩
    · obtain ⟨rfl, rfl⟩ := List.cons.inj hp
      obtain ⟨rfl, rfl⟩ := List.cons.inj hq
      exact .inl hab
    · simp only [List.cons_append, List.cons.injEq] at hp hq
      obtain ⟨rfl, rfl⟩ := hp
      obtain ⟨rfl, rfl⟩ := hq
      exact .inr ⟨rfl, shared, a, b, p', q', rfl, rfl, hab⟩
  · rintro (h | ⟨rfl, shared, a, b, p', q', rfl, rfl, hab⟩)
    · exact ⟨[], i, j, p, q, rfl, rfl, h⟩
    · exact ⟨i :: shared, a, b, p', q', rfl, rfl, hab⟩

/-! ### The orders are strict -/

theorem not_inside_self : ¬ p.Inside p := fun h => h.2 rfl

theorem not_leftOf_self : ¬ p.LeftOf p := by
  induction p with
  | nil => exact not_nil_leftOf
  | cons i p ih => simp [leftOf_cons_cons, ih]

theorem PostOrder.irrefl : ¬ p.PostOrder p := by
  rintro (h | h)
  · exact not_inside_self h
  · exact not_leftOf_self h

theorem Inside.asymm (h : p.Inside q) : ¬ q.Inside p := by
  intro h'
  have hle := h.1.length_le
  have hle' := h'.1.length_le
  have hlen : p.length = q.length := by omega
  exact h.2 (h'.1.eq_of_length hlen)

theorem LeftOf.asymm (h : p.LeftOf q) : ¬ q.LeftOf p := by
  induction p generalizing q with
  | nil => exact absurd h not_nil_leftOf
  | cons i p ih =>
    cases q with
    | nil => exact not_nil_leftOf
    | cons j q =>
      rw [leftOf_cons_cons] at h ⊢
      rintro (hji | ⟨rfl, h'⟩)
      · rcases h with hij | ⟨rfl, -⟩ <;> omega
      · rcases h with hij | ⟨-, h⟩
        · omega
        · exact ih h h'

theorem LeftOf.not_inside (h : p.LeftOf q) : ¬ p.Inside q ∧ ¬ q.Inside p := by
  induction p generalizing q with
  | nil => exact absurd h not_nil_leftOf
  | cons i p ih =>
    cases q with
    | nil => exact absurd h not_leftOf_nil
    | cons j q =>
      rw [leftOf_cons_cons] at h
      rw [inside_cons_cons, inside_cons_cons]
      rcases h with hij | ⟨rfl, h⟩
      · constructor <;> rintro ⟨rfl, -⟩ <;> omega
      · obtain ⟨hpq, hqp⟩ := ih h
        exact ⟨fun e => hpq e.2, fun e => hqp e.2⟩

theorem PreOrder.asymm (h : p.PreOrder q) : ¬ q.PreOrder p := by
  rintro (h' | h')
  · rcases h with hin | hleft
    · exact hin.asymm h'
    · exact hleft.not_inside.1 h'
  · rcases h with hin | hleft
    · exact h'.not_inside.1 hin
    · exact hleft.asymm h'

theorem PostOrder.asymm (h : p.PostOrder q) : ¬ q.PostOrder p := by
  rintro (h' | h')
  · rcases h with hin | hleft
    · exact hin.asymm h'
    · exact hleft.not_inside.2 h'
  · rcases h with hin | hleft
    · exact h'.not_inside.2 hin
    · exact hleft.asymm h'

/-! ### Nodes below a node -/

theorem inside_of_below {k : Nat} (h : q = p ++ k :: r) : q.Inside p := by
  subst h
  exact ⟨List.prefix_append p _, by simp⟩

theorem postOrder_parent {k : Nat} (h : q = p ++ k :: r) : q.PostOrder p := .inl (inside_of_below h)

theorem preOrder_child {k : Nat} (h : q = p ++ k :: r) : p.PreOrder q := .inl (inside_of_below h)

theorem leftOf_siblings {q' r' : Address} (hij : i < j) (h : q = p ++ i :: r)
    (h' : q' = p ++ j :: r') : q.LeftOf q' :=
  ⟨p, i, j, r, r', h, h', hij⟩

/-- What is below two nodes is parted where the nodes are. -/
theorem LeftOf.append (h : p.LeftOf q) (p' q' : Address) : (p ++ p').LeftOf (q ++ q') := by
  obtain ⟨shared, i, j, r, r', rfl, rfl, hij⟩ := h
  exact leftOf_siblings hij (List.append_assoc ..) (List.append_assoc ..)

end Address

/-! ### Nodes in order -/

/-- What is listed for nodes in order, the first of which has a given index under an address. -/
def listChildren {N O : Type} (one : Address → N → List O) (p : Address) : Nat → List N → List O
  | _, [] => []
  | i, node :: nodes => one (p ++ [i]) node ++ listChildren one p (i + 1) nodes

section ListChildren

open Address

variable {N O : Type} {one : Address → N → List O} {nodes : List N}

/-- What is below an address is there itself, or is below one of the indices under it. -/
theorem exists_below_iff {p q : Address} {Found : Address → Prop} :
    (∃ r, q = p ++ r ∧ Found r) ↔
      q = p ∧ Found [] ∨ ∃ k r, q = p ++ k :: r ∧ Found (k :: r) := by
  constructor
  · rintro ⟨_ | ⟨k, r⟩, hq, found⟩
    · exact .inl ⟨by simpa using hq, found⟩
    · exact .inr ⟨k, r, hq, found⟩
  · rintro (⟨rfl, found⟩ | ⟨k, r, hq, found⟩)
    · exact ⟨[], by simp, found⟩
    · exact ⟨k :: r, hq, found⟩

/-- What is found from a node is the node itself, or is below it. -/
theorem exists_at?_iff {p q : Address} {find : Address → Option O} {top o : O}
    (here : find [] = some top) :
    (∃ r, q = p ++ r ∧ find r = some o) ↔
      (q, o) = (p, top) ∨ ∃ k r, q = p ++ k :: r ∧ find (k :: r) = some o := by
  rw [exists_below_iff, here, Option.some.injEq, Prod.mk.injEq, eq_comm (a := top)]

/-- Where each node lists what is found in it, the nodes list what is found in one of them, at its index
and then the address in it. -/
theorem mem_listChildren {o : O} {q : Address} {Found : Address → N → Prop}
    (each : ∀ node ∈ nodes, ∀ p, o ∈ one p node ↔ ∃ r, q = p ++ r ∧ Found r node) (p : Address)
    (i : Nat) :
    o ∈ listChildren one p i nodes ↔
      ∃ k r, q = p ++ (i + k) :: r ∧ ∃ node, nodes[k]? = some node ∧ Found r node := by
  induction nodes generalizing i with
  | nil => simp [listChildren]
  | cons node nodes ih =>
    obtain ⟨here, later⟩ := List.forall_mem_cons.mp each
    rw [listChildren, List.mem_append, here, ih later]
    constructor
    · rintro (⟨r, rfl, found⟩ | ⟨k, r, rfl, found⟩)
      · exact ⟨0, r, by simp, node, rfl, found⟩
      · exact ⟨k + 1, r, by simp [Nat.add_assoc, Nat.add_comm 1 k], found⟩
    · rintro ⟨_ | k, r, rfl, child, hchild, found⟩
      · obtain rfl := Option.some.inj hchild
        exact .inl ⟨r, by simp, found⟩
      · exact .inr ⟨k, r, by simp [Nat.add_assoc, Nat.add_comm 1 k], child, hchild, found⟩

section Order

variable {address : O → Address} (below : ∀ {p node o}, o ∈ one p node → ∃ r, address o = p ++ r)

include below

theorem below_of_mem_listChildren {p : Address} {i : Nat} {o : O} (h : o ∈ listChildren one p i nodes) :
    ∃ k r, i ≤ k ∧ address o = p ++ k :: r := by
  induction nodes generalizing i with
  | nil => cases h
  | cons node nodes ih =>
    rcases List.mem_append.mp h with h | h
    · obtain ⟨r, hr⟩ := below h
      exact ⟨i, r, Nat.le_refl i, by simpa using hr⟩
    · obtain ⟨k, r, hk, hr⟩ := ih h
      exact ⟨k, r, Nat.le_of_succ_le hk, hr⟩

/-- Where what each node lists is in order, so is what the nodes list. -/
theorem pairwise_listChildren {before : Address → Address → Prop}
    (siblings : ∀ {p q}, p.LeftOf q → before p q)
    (each : ∀ node ∈ nodes, ∀ p, (one p node).Pairwise fun o o' => before (address o) (address o'))
    (p : Address) (i : Nat) :
    (listChildren one p i nodes).Pairwise fun o o' => before (address o) (address o') := by
  induction nodes generalizing i with
  | nil => exact .nil
  | cons node nodes ih =>
    obtain ⟨here, later⟩ := List.forall_mem_cons.mp each
    rw [listChildren, List.pairwise_append]
    refine ⟨here (p ++ [i]), ih later (i + 1), ?_⟩
    intro o ho o' ho'
    obtain ⟨r, hr⟩ := below ho
    obtain ⟨k, r', hk, hr'⟩ := below_of_mem_listChildren below ho'
    exact siblings (leftOf_siblings (Nat.lt_of_succ_le hk) (by simpa using hr) hr')

/-- A node after what is below it. -/
theorem pairwise_postOrder (here : O)
    (each : ∀ node ∈ nodes, ∀ p, (one p node).Pairwise fun o o' => (address o).PostOrder (address o')) :
    (listChildren one (address here) 0 nodes ++ [here]).Pairwise fun o o' =>
      (address o).PostOrder (address o') := by
  rw [List.pairwise_append]
  refine ⟨pairwise_listChildren below .inr each _ 0, List.pairwise_singleton .., ?_⟩
  intro o ho o' ho'
  obtain rfl := List.mem_singleton.mp ho'
  obtain ⟨k, r, -, hr⟩ := below_of_mem_listChildren below ho
  exact postOrder_parent hr

/-- A node before what is below it. -/
theorem pairwise_preOrder (here : O)
    (each : ∀ node ∈ nodes, ∀ p, (one p node).Pairwise fun o o' => (address o).PreOrder (address o')) :
    (here :: listChildren one (address here) 0 nodes).Pairwise fun o o' =>
      (address o).PreOrder (address o') := by
  refine List.pairwise_cons.mpr ⟨?_, pairwise_listChildren below .inr each _ 0⟩
  intro o ho
  obtain ⟨k, r, -, hr⟩ := below_of_mem_listChildren below ho
  exact preOrder_child hr

end Order

end ListChildren

/-! ### Listings -/

/-- The list has the nodes that occur with their addresses, each address once. Of two nodes the one
that comes first in post-order comes first in the list. -/
structure PostOrderListing {N : Type} (places : List (Address × N)) (Occurs : Address → N → Prop) :
    Prop where
  complete : ∀ p node, (p, node) ∈ places ↔ Occurs p node
  once : (places.map Prod.fst).Nodup
  ordered : ∀ (i j : Nat) (p q : Address), (places.map Prod.fst)[i]? = some p →
    (places.map Prod.fst)[j]? = some q → (i < j ↔ p.PostOrder q)

namespace PostOrderListing

open Address

theorem of_pairwise {N : Type} {places : List (Address × N)} {Occurs : Address → N → Prop}
    (complete : ∀ p node, (p, node) ∈ places ↔ Occurs p node)
    (pairwise : (places.map Prod.fst).Pairwise PostOrder) : PostOrderListing places Occurs := by
  refine ⟨complete, ?_, ?_⟩
  · refine List.nodup_iff_pairwise_ne.mpr (pairwise.imp ?_)
    rintro p q h rfl
    exact PostOrder.irrefl h
  · intro i j p q hp hq
    obtain ⟨hi, rfl⟩ := List.getElem?_eq_some_iff.mp hp
    obtain ⟨hj, rfl⟩ := List.getElem?_eq_some_iff.mp hq
    have before := List.pairwise_iff_getElem.mp pairwise
    constructor
    · exact before i j hi hj
    · intro h
      rcases Nat.lt_trichotomy i j with hij | rfl | hji
      · exact hij
      · exact absurd h PostOrder.irrefl
      · exact absurd (before j i hj hi hji) h.asymm

/-- Only one node has an address. -/
theorem unique {N : Type} {places : List (Address × N)} {Occurs : Address → N → Prop}
    (listing : PostOrderListing places Occurs) {p : Address} {a b : N} (ha : Occurs p a)
    (hb : Occurs p b) : a = b := by
  obtain ⟨i, hi⟩ := List.getElem?_of_mem ((listing.complete p a).mpr ha)
  obtain ⟨j, hj⟩ := List.getElem?_of_mem ((listing.complete p b).mpr hb)
  have hi' : (places.map Prod.fst)[i]? = some p := by simp [hi]
  have hj' : (places.map Prod.fst)[j]? = some p := by simp [hj]
  rcases Nat.lt_trichotomy i j with hij | rfl | hji
  · exact absurd ((listing.ordered i j p p hi' hj').mp hij) PostOrder.irrefl
  · exact (Prod.mk.inj (Option.some.inj (hi.symm.trans hj))).2
  · exact absurd ((listing.ordered j i p p hj' hi').mp hji) PostOrder.irrefl

end PostOrderListing

/-! ### The first of a list -/

/-- In a list with an order, the first element with a value is the one before which there is none. -/
theorem findSome?_eq_some_of_pairwise {α β : Type} {f : α → Option β} {before : α → α → Prop}
    (asymm : ∀ x y, before x y → ¬ before y x) {l : List α} (h : l.Pairwise before) {b : β} :
    l.findSome? f = some b ↔ ∃ a ∈ l, f a = some b ∧ ∀ x ∈ l, before x a → f x = none := by
  constructor
  · intro hb
    obtain ⟨l₁, a, l₂, rfl, ha, hnone⟩ := List.findSome?_eq_some_iff.mp hb
    refine ⟨a, by simp, ha, ?_⟩
    intro x hx hxa
    rcases List.mem_append.mp hx with hx | hx
    · exact hnone x hx
    · rcases List.mem_cons.mp hx with rfl | hx
      · exact absurd hxa (asymm x x hxa)
      · have hax := (List.pairwise_cons.mp (List.pairwise_append.mp h).2.1).1 x hx
        exact absurd hxa (asymm a x hax)
  · rintro ⟨a, ha, hb, hnone⟩
    obtain ⟨l₁, l₂, rfl⟩ := List.append_of_mem ha
    refine List.findSome?_eq_some_iff.mpr ⟨l₁, a, l₂, rfl, hb, ?_⟩
    intro x hx
    exact hnone x (by simp [hx]) ((List.pairwise_append.mp h).2.2 x hx a (by simp))

/-- In a list with an order, the elements before the first one that `ok` does not hold of. -/
theorem mem_takeWhile_of_pairwise {α : Type} {ok : α → Bool} {before : α → α → Prop}
    (asymm : ∀ x y, before x y → ¬ before y x) {l : List α} (h : l.Pairwise before) {a : α}
    (ha : a ∈ l) (bad : ok a = false) (fine : ∀ x ∈ l, before x a → ok x = true) {x : α} :
    x ∈ l.takeWhile ok ↔ x ∈ l ∧ before x a := by
  obtain ⟨l₁, l₂, rfl⟩ := List.append_of_mem ha
  obtain ⟨-, later, between⟩ := List.pairwise_append.mp h
  have first : ∀ y ∈ l₁, ok y = true := fun y hy =>
    fine y (List.mem_append_left _ hy) (between y hy a List.mem_cons_self)
  have taken : (l₁ ++ a :: l₂).takeWhile ok = l₁ := by
    rw [List.takeWhile_append_of_pos first, List.takeWhile_cons_of_neg (by simp [bad]),
      List.append_nil]
  rw [taken]
  constructor
  · intro hx
    exact ⟨List.mem_append_left _ hx, between x hx a List.mem_cons_self⟩
  · rintro ⟨hx, hxa⟩
    rcases List.mem_append.mp hx with hx | hx
    · exact hx
    · rcases List.mem_cons.mp hx with rfl | hx
      · exact absurd hxa (asymm x x hxa)
      · exact absurd hxa (asymm a x ((List.pairwise_cons.mp later).1 x hx))

/-! ### Listings in pre-order -/

/-- What some nodes have, each under the address of the node. -/
def filterPlaces {N M : Type} (f : N → Option M) (places : List (Address × N)) : List (Address × M) :=
  places.filterMap fun o => (f o.2).map (o.1, ·)

theorem map_snd_filterPlaces {N M : Type} (f : N → Option M) (places : List (Address × N)) :
    (filterPlaces f places).map Prod.snd = (places.map Prod.snd).filterMap f := by
  rw [filterPlaces, List.map_filterMap, List.filterMap_map]
  congr 1
  funext o
  simp [Option.map_map, Function.comp_def]

theorem mem_filterPlaces {N M : Type} {f : N → Option M} {places : List (Address × N)} {p : Address}
    {b : M} : (p, b) ∈ filterPlaces f places ↔ ∃ node, (p, node) ∈ places ∧ f node = some b := by
  rw [filterPlaces, List.mem_filterMap]
  constructor
  · rintro ⟨⟨q, node⟩, hmem, h⟩
    obtain ⟨c, hc, heq⟩ := Option.map_eq_some_iff.mp h
    obtain ⟨rfl, rfl⟩ := Prod.mk.inj heq
    exact ⟨node, hmem, hc⟩
  · rintro ⟨node, hmem, hb⟩
    exact ⟨(p, node), hmem, by rw [hb, Option.map_some]⟩

/-- The list has the nodes that occur with their addresses. A node in the list comes, in pre-order, before
those after it, so that no address is listed twice. -/
structure PreOrderListing {N : Type} (places : List (Address × N)) (Occurs : Address → N → Prop) :
    Prop where
  complete : ∀ p node, (p, node) ∈ places ↔ Occurs p node
  ordered : places.Pairwise fun o o' => o.1.PreOrder o'.1

namespace PreOrderListing

open Address

variable {N M : Type} {places : List (Address × N)} {Occurs : Address → N → Prop}

theorem congr {Other : Address → N → Prop} (listing : PreOrderListing places Occurs)
    (same : ∀ p node, Occurs p node ↔ Other p node) : PreOrderListing places Other :=
  ⟨fun p node => (listing.complete p node).trans (same p node), listing.ordered⟩

theorem filterPlaces (listing : PreOrderListing places Occurs) (f : N → Option M) :
    PreOrderListing (filterPlaces f places) fun p b => ∃ node, Occurs p node ∧ f node = some b := by
  refine ⟨?_, List.pairwise_filterMap.mpr (listing.ordered.imp ?_)⟩
  · intro p b
    simp only [mem_filterPlaces, listing.complete]
  · intro o o' before b hb b' hb'
    obtain ⟨c, -, rfl⟩ := Option.map_eq_some_iff.mp hb
    obtain ⟨c', -, rfl⟩ := Option.map_eq_some_iff.mp hb'
    exact before

/-- The first node that has something, in pre-order. -/
theorem findSome?_eq_some (listing : PreOrderListing places Occurs) {f : N → Option M} {b : M} :
    places.findSome? (fun o => f o.2) = some b ↔
      ∃ p node, Occurs p node ∧ f node = some b ∧
        ∀ q node', Occurs q node' → q.PreOrder p → f node' = none := by
  rw [findSome?_eq_some_of_pairwise (fun _ _ => PreOrder.asymm) listing.ordered]
  constructor
  · rintro ⟨⟨p, node⟩, hmem, hb, hnone⟩
    refine ⟨p, node, (listing.complete p node).mp hmem, hb, ?_⟩
    intro q node' hoccurs
    exact hnone (q, node') ((listing.complete q node').mpr hoccurs)
  · rintro ⟨p, node, hoccurs, hb, hnone⟩
    refine ⟨(p, node), (listing.complete p node).mpr hoccurs, hb, ?_⟩
    rintro ⟨q, node'⟩ hmem
    exact hnone q node' ((listing.complete q node').mp hmem)

/-- The nodes before the first one that `ok` does not hold of. -/
theorem takeWhile (listing : PreOrderListing places Occurs) {ok : N → Bool} {p : Address} {node : N}
    (here : Occurs p node) (bad : ok node = false)
    (fine : ∀ q node', Occurs q node' → q.PreOrder p → ok node' = true) :
    PreOrderListing (places.takeWhile fun o => ok o.2) fun q node' =>
      Occurs q node' ∧ q.PreOrder p := by
  refine ⟨?_, listing.ordered.sublist (List.takeWhile_sublist _)⟩
  intro q node'
  rw [← listing.complete q node']
  refine mem_takeWhile_of_pairwise (fun _ _ => PreOrder.asymm) listing.ordered
    ((listing.complete p node).mpr here) bad ?_
  rintro ⟨q, node'⟩ hmem
  exact fine q node' ((listing.complete q node').mp hmem)

end PreOrderListing

end MarkdownTree
