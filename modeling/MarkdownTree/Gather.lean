/-!
Values that can be gathered: an empty value and a way to join two. Texts, lists and 64-bit sums are
gathered this way, and for them the grouping does not matter.
-/

namespace MarkdownTree

/-- An empty value and a way to join two. -/
class Gather (M : Type) where
  empty : M
  combine : M → M → M

namespace Gather

variable {M : Type} [Gather M]

/-- Joins all values from the left, starting from the empty one. -/
def concat (values : List M) : M := values.foldl combine empty

/-- Joins all values from the right, ending in the empty one. -/
def concatRight (values : List M) : M := values.foldr combine empty

end Gather

/-- Joining is associative, and the empty value changes nothing on either side. -/
class LawfulGather (M : Type) [Gather M] : Prop where
  empty_combine (a : M) : Gather.combine Gather.empty a = a
  combine_empty (a : M) : Gather.combine a Gather.empty = a
  combine_assoc (a b c : M) :
    Gather.combine (Gather.combine a b) c = Gather.combine a (Gather.combine b c)

instance {α : Type} : Gather (List α) := ⟨[], (· ++ ·)⟩
instance : Gather String := ⟨"", (· ++ ·)⟩
instance : Gather Int64 := ⟨0, (· + ·)⟩

instance {α : Type} : LawfulGather (List α) :=
  ⟨List.nil_append, List.append_nil, List.append_assoc⟩

instance : LawfulGather String :=
  ⟨fun _ => String.empty_append, fun _ => String.append_empty, fun _ _ _ => String.append_assoc⟩

instance : LawfulGather Int64 := ⟨Int64.zero_add, Int64.add_zero, Int64.add_assoc⟩

namespace Gather

variable {M : Type} [Gather M] [LawfulGather M]

theorem foldl_combine (a : M) (values : List M) :
    values.foldl combine a = combine a (concat values) := by
  induction values generalizing a with
  | nil => exact (LawfulGather.combine_empty a).symm
  | cons v vs ih =>
    have here : concat (v :: vs) = combine (combine empty v) (concat vs) := ih (combine empty v)
    rw [List.foldl_cons, ih, here, LawfulGather.empty_combine, LawfulGather.combine_assoc]

theorem concat_cons (v : M) (vs : List M) : concat (v :: vs) = combine v (concat vs) := by
  rw [concat, List.foldl_cons, LawfulGather.empty_combine, foldl_combine]

theorem concat_append (vs ws : List M) : concat (vs ++ ws) = combine (concat vs) (concat ws) := by
  rw [concat, List.foldl_append, foldl_combine]; rfl

end Gather

end MarkdownTree
