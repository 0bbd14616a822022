import MarkdownTree.Proofs.Mdast.Subnode
import MarkdownTree.Reading.Definitions

/-!
What the collected definitions of a tree say of an identifier: the target of the first definition in
pre-order that has it (`Definitions.find?_collect`).
-/

namespace MarkdownTree.Definitions

open Mdast (Node Definition)

/-- Adds definitions in order. -/
def addAll (table : Definitions) (ds : List Definition) : Logged Definitions :=
  ds.foldlM add table

theorem addAll_append (table : Definitions) (ds es : List Definition) :
    table.addAll (ds ++ es) = table.addAll ds >>= fun table => table.addAll es :=
  List.foldlM_append

mutual

/-- A tree is searched for its definitions in pre-order. -/
theorem collect_eq : ∀ (table : Definitions) (node : Node),
    table.collect node = table.addAll node.definitions
  | table, .parent kind children position => by
    rw [collect, collectAll_eq, Node.definitions_parent]
  | table, .leaf kind position => by
    cases kind with
    | definition d =>
      rw [collect]
      exact (bind_pure _).symm
    | _ => rfl

theorem collectAll_eq : ∀ (table : Definitions) (nodes : List Node),
    table.collectAll nodes = table.addAll (Node.definitionsOf nodes)
  | table, [] => rfl
  | table, node :: nodes => by
    rw [collectAll, Node.definitionsOf_cons, addAll_append, collect_eq table node]
    congr 1
    funext table
    exact collectAll_eq table nodes

end

theorem find?_cons (d : Definition) (targets : List (String × Target)) (identifier : String) :
    find? ⟨(d.identifier, d.target) :: targets⟩ identifier =
      if d.identifier = identifier then some d.target else find? ⟨targets⟩ identifier := by
  by_cases h : d.identifier = identifier
  · simp [find?, h]
  · have hne : (identifier == d.identifier) = false := beq_false_of_ne fun e => h e.symm
    simp [find?, List.lookup_cons, hne, h]

theorem find?_add (table : Definitions) (d : Definition) (identifier : String) :
    (table.add d).value.find? identifier =
      (table.find? identifier).or (if d.identifier = identifier then some d.target else none) := by
  cases h : table.find? d.identifier with
  | some target =>
    have same : (table.add d).value = table := by
      rw [add, h]
      rfl
    by_cases hd : d.identifier = identifier
    · rw [same, ← hd, h, Option.some_or]
    · rw [same, if_neg hd, Option.or_none]
  | none =>
    have grown : (table.add d).value = ⟨(d.identifier, d.target) :: table.targets⟩ := by
      rw [add, h]
      rfl
    by_cases hd : d.identifier = identifier
    · rw [grown, find?_cons, if_pos hd, if_pos hd, ← hd, h, Option.none_or]
    · rw [grown, find?_cons, if_neg hd, if_neg hd, Option.or_none]

theorem find?_addAll (table : Definitions) (ds : List Definition) (identifier : String) :
    (table.addAll ds).value.find? identifier =
      (table.find? identifier).or
        ((ds.find? (·.identifier == identifier)).map Mdast.Definition.target) := by
  induction ds generalizing table with
  | nil => simp [addAll]
  | cons d ds ih =>
    have step : (table.addAll (d :: ds)).value = ((table.add d).value.addAll ds).value := by
      simp [addAll]
    rw [step, ih, find?_add, Option.or_assoc]
    by_cases h : d.identifier = identifier <;> simp [h]

/-- **The first definition counts.** -/
theorem find?_collect (node : Node) (identifier : String) :
    (collect {} node).value.find? identifier =
      (node.definitions.find? (·.identifier == identifier)).map Mdast.Definition.target := by
  rw [collect_eq, find?_addAll]
  rfl

theorem isSome_find?_collect (node : Node) (identifier : String) :
    ((collect {} node).value.find? identifier).isSome = node.defines identifier := by
  rw [find?_collect, Option.isSome_map, List.isSome_find?]
  rfl

end MarkdownTree.Definitions
