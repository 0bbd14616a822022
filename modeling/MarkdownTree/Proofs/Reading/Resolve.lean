import MarkdownTree.Proofs.Mdast.Place
import MarkdownTree.Proofs.Reading.Definitions
import MarkdownTree.Proofs.Reading.Outcome

/-!
Which definition a reference stands for, and what is logged of the others. Of the definitions of a tree with
one identifier the first in pre-order counts, wherever in the tree it is; each later one is logged, in
pre-order. The proof follows the table of definitions along the listing of the tree: what it has comes from
the definitions before. Main statement: `resolve_collect`.
-/

namespace MarkdownTree

open Mdast (Node Definition Reference)
open Address Reading

/-! ### Definitions with one identifier -/

/-- The definition at an address is the first in the tree with a given identifier. -/
def Mdast.Node.FirstDefinition (ast : Node) (identifier : String) (p : Address) (d : Definition) : Prop :=
  ast.HasDefinition p d ∧ d.identifier = identifier ∧
    ∀ q d', ast.HasDefinition q d' → q.PreOrder p → d'.identifier ≠ identifier

/-- The definition at an address comes after another one with its identifier. -/
def Mdast.Node.RepeatsDefinition (ast : Node) (p : Address) (d : Definition) : Prop :=
  ast.HasDefinition p d ∧
    ∃ q d', ast.HasDefinition q d' ∧ q.PreOrder p ∧ d'.identifier = d.identifier

/-- The first definition of the listing is the first one in the tree. -/
theorem Mdast.Node.find?_definitions_eq_some {ast : Node} {identifier : String} {d : Definition} :
    ast.definitions.find? (·.identifier == identifier) = some d ↔
      ∃ p, ast.FirstDefinition identifier p d := by
  rw [← map_snd_definitionPlaces, List.find?_eq_findSome?_guard, List.findSome?_map]
  refine ast.definitionListing.findSome?_eq_some.trans (exists_congr fun p => ?_)
  simp only [FirstDefinition, Option.guard_eq_some_iff, Option.guard_eq_none_iff, beq_iff_eq,
    beq_eq_false_iff_ne]
  constructor
  · rintro ⟨d', hd', ⟨rfl, hid⟩, none_before⟩
    exact ⟨hd', hid, none_before⟩
  · rintro ⟨hd, hid, none_before⟩
    exact ⟨d, hd, ⟨rfl, hid⟩, none_before⟩

theorem Mdast.Node.find?_definitions_eq_none {ast : Node} {identifier : String} :
    ast.definitions.find? (·.identifier == identifier) = none ↔
      ∀ p d, ast.HasDefinition p d → d.identifier ≠ identifier := by
  rw [← map_snd_definitionPlaces, List.find?_eq_none]
  simp only [List.forall_mem_map, Prod.forall, ast.definitionListing.complete, beq_iff_eq, ne_eq]

namespace Definitions

/-! ### What is logged -/

theorem log_add (table : Definitions) (d : Definition) :
    (table.add d).log =
      if (table.find? d.identifier).isSome then [.duplicateDefinition d.identifier] else [] := by
  rw [add]
  cases table.find? d.identifier <;> rfl

theorem log_addAll_cons (table : Definitions) (d : Definition) (ds : List Definition) :
    (table.addAll (d :: ds)).log = (table.add d).log ++ ((table.add d).value.addAll ds).log := by
  simp [addAll]

theorem isSome_find?_add (table : Definitions) (d : Definition) (identifier : String) :
    ((table.add d).value.find? identifier).isSome ↔
      (table.find? identifier).isSome ∨ d.identifier = identifier := by
  rw [find?_add, Option.isSome_or, Bool.or_eq_true]
  split <;> simp [*]

/-- The identifier of a definition is known before it is come to: to a table, or from a definition among
some that comes earlier. -/
def KnownBefore (table : Definitions) (ds : List (Address × Definition)) (o : Address × Definition) :
    Prop :=
  (table.find? o.2.identifier).isSome ∨
    ∃ q d, (q, d) ∈ ds ∧ q.PreOrder o.1 ∧ d.identifier = o.2.identifier

section

variable {table : Definitions} {o later : Address × Definition} {ds : List (Address × Definition)}

/-- Adding the first of the definitions takes what it makes known into the table. -/
theorem knownBefore_add (before : o.1.PreOrder later.1) :
    KnownBefore (table.add o.2).value ds later ↔ KnownBefore table (o :: ds) later := by
  unfold KnownBefore
  rw [isSome_find?_add, or_assoc]
  refine or_congr_right ?_
  constructor
  · rintro (h | ⟨q, d, hmem, h⟩)
    · exact ⟨o.1, o.2, List.mem_cons_self, before, h⟩
    · exact ⟨q, d, List.mem_cons_of_mem o hmem, h⟩
  · rintro ⟨q, d, hmem, hq, hd⟩
    rcases List.mem_cons.mp hmem with rfl | hmem
    · exact .inl hd
    · exact .inr ⟨q, d, hmem, hq, hd⟩

/-- Before the first of the definitions only the table knows anything. -/
theorem knownBefore_first (first : ∀ o' ∈ ds, o.1.PreOrder o'.1) :
    KnownBefore table (o :: ds) o ↔ (table.find? o.2.identifier).isSome := by
  refine or_iff_left ?_
  rintro ⟨q, d, hmem, hq, -⟩
  rcases List.mem_cons.mp hmem with rfl | hmem
  · exact hq.asymm hq
  · exact hq.asymm (first _ hmem)

/-- Of definitions added in pre-order those are logged, in this order, whose identifiers are known before
them. -/
theorem exists_log_addAll (ordered : ds.Pairwise fun o o' => o.1.PreOrder o'.1)
    (table : Definitions) :
    ∃ repeated : List (Address × Definition),
      (table.addAll (ds.map Prod.snd)).log =
        repeated.map (fun o => .duplicateDefinition o.2.identifier) ∧
      repeated.Sublist ds ∧ ∀ o, o ∈ repeated ↔ o ∈ ds ∧ KnownBefore table ds o := by
  induction ds generalizing table with
  | nil => exact ⟨[], rfl, List.Sublist.refl _, by simp⟩
  | cons o ds ih =>
    obtain ⟨first, rest⟩ := List.pairwise_cons.mp ordered
    obtain ⟨repeated, log, sub, mem⟩ := ih rest (table.add o.2).value
    have later (o' : Address × Definition) :
        o' ∈ repeated ↔ o' ∈ ds ∧ KnownBefore table (o :: ds) o' := by
      rw [mem]
      exact and_congr_right fun ho' => knownBefore_add (first o' ho')
    rw [List.map_cons, log_addAll_cons, log, log_add]
    by_cases known : (table.find? o.2.identifier).isSome
    · refine ⟨o :: repeated, by rw [if_pos known]; rfl, sub.cons_cons o, ?_⟩
      intro o'
      rw [List.mem_cons, List.mem_cons, later, or_and_right, or_congr_left]
      rw [iff_self_and]
      rintro rfl
      exact (knownBefore_first first).mpr known
    · refine ⟨repeated, by rw [if_neg known]; rfl, sub.cons o, ?_⟩
      intro o'
      rw [List.mem_cons, later, or_and_right, or_iff_right]
      rintro ⟨rfl, h⟩
      exact known ((knownBefore_first first).mp h)

end

/-- The definitions of a tree that come after another one with the same identifier are logged, in
pre-order, and nothing else is. -/
theorem exists_log_collect (ast : Node) :
    ∃ repeated : List (Address × Definition),
      (collect {} ast).log = repeated.map (fun o => .duplicateDefinition o.2.identifier) ∧
      PreOrderListing repeated ast.RepeatsDefinition := by
  have listing := ast.definitionListing
  obtain ⟨repeated, log, sub, mem⟩ := exists_log_addAll listing.ordered {}
  refine ⟨repeated, ?_, ?_, listing.ordered.sublist sub⟩
  · rw [collect_eq, ← Node.map_snd_definitionPlaces, log]
  · intro p d
    have nothing : ¬ ((({} : Definitions).find? d.identifier).isSome) := nofun
    rw [mem, listing.complete, KnownBefore, or_iff_right nothing]
    simp only [listing.complete]
    rfl

end Definitions

/-! ### Main statement -/

/-- **The first definition counts, and every later one is logged.** Once the definitions of a tree have been
collected, a reference stands for the target of the first definition in pre-order that has its identifier, in
the whole tree; it fails just if there is none, and then by its label or else its identifier. The log of the
collecting has, in pre-order, the definitions that come after another one with the same identifier, and
nothing else. -/
theorem resolve_collect (ast : Node) :
    (∀ (keepUnsupported : Bool) (reference : Reference),
      let r : Reader := ⟨(Definitions.collect {} ast).value, keepUnsupported⟩
      (∀ target, (r.resolve reference).outcome = .ok target ↔
        ∃ p d, ast.FirstDefinition reference.identifier p d ∧ target = ⟨d.title, some d.url⟩) ∧
      ∀ e, (r.resolve reference).outcome = .error e ↔
        e = .missingDefinition (reference.label.getD reference.identifier) ∧
          ∀ p d, ast.HasDefinition p d → d.identifier ≠ reference.identifier) ∧
    ∃ repeated : List (Address × Definition),
      (Definitions.collect {} ast).log =
        repeated.map (fun o => .duplicateDefinition o.2.identifier) ∧
      PreOrderListing repeated ast.RepeatsDefinition := by
  refine ⟨?_, Definitions.exists_log_collect ast⟩
  intro keepUnsupported reference r
  have found : r.definitions.find? reference.identifier =
      (ast.definitions.find? (·.identifier == reference.identifier)).map Definition.target :=
    Definitions.find?_collect ast reference.identifier
  constructor
  · intro target
    rw [← value?_eq_some, Reader.value?_resolve, found, Option.map_eq_some_iff]
    simp only [Node.find?_definitions_eq_some]
    constructor
    · rintro ⟨d, ⟨p, first⟩, rfl⟩
      exact ⟨p, d, first, rfl⟩
    · rintro ⟨p, d, first, rfl⟩
      exact ⟨d, ⟨p, first⟩, rfl⟩
  · intro e
    rw [← failure?_eq_some, Reader.failure?_resolve, Reader.defines, found, Option.isSome_map,
      ← Node.find?_definitions_eq_none]
    cases ast.definitions.find? (·.identifier == reference.identifier) <;> simp [eq_comm]

/-- The first definition is in what is struck out, below a table; both others are logged. -/
example :
    let ast : Node := .parent .root [
      .parent (.table []) [
        .parent .delete [.leaf (.definition ⟨"/1", none, "a", none⟩) none] none] none,
      .leaf (.definition ⟨"/2", none, "a", none⟩) none,
      .parent .blockquote [.leaf (.definition ⟨"/3", none, "a", none⟩) none] none] none
    (Definitions.collect {} ast).value.find? "a" = some ⟨none, some "/1"⟩ ∧
      (Definitions.collect {} ast).log = [.duplicateDefinition "a", .duplicateDefinition "a"] :=
  ⟨rfl, rfl⟩

end MarkdownTree
