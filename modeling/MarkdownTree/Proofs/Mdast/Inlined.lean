import MarkdownTree.Proofs.Mdast.Subnode

/-!
Inlining the definitions of a syntax tree: links and images that refer to a definition get its url
and title for their own, and no definition stays among blocks. The plain text stays as it is
(`Node.plainText_resolved`).
-/

namespace MarkdownTree.Mdast

/-! ### References resolved -/

section Resolved

variable (find? : String → Option Definition)

/-- A reference that is defined as the link that it stands for; every other kind as it is. -/
def Parent.resolved : Parent → Parent
  | .linkReference reference =>
    match find? reference.identifier with
    | some d => .link d.url d.title
    | none => .linkReference reference
  | kind => kind

/-- A reference that is defined as the image that it stands for; every other kind as it is. -/
def Leaf.resolved : Leaf → Leaf
  | .imageReference alt reference =>
    match find? reference.identifier with
    | some d => .image alt d.url d.title
    | none => .imageReference alt reference
  | kind => kind

/-- The children of the kind are blocks. -/
def Parent.holdsBlocks : Parent → Bool
  | .root | .blockquote | .listItem .. => true
  | _ => false

/-- The nodes that are no definitions. -/
def Node.withoutDefinitions (nodes : List Node) : List Node :=
  nodes.filter fun node => node.definition?.isNone

mutual

/-- A node with all references in it resolved that are defined, and without the definitions among
blocks in it. -/
def Node.resolved : Node → Node
  | .parent kind children position =>
    let children := Node.resolvedAll children
    .parent (kind.resolved find?)
      (if kind.holdsBlocks then Node.withoutDefinitions children else children) position
  | .leaf kind position => .leaf (kind.resolved find?) position

def Node.resolvedAll : List Node → List Node
  | [] => []
  | node :: nodes => Node.resolved node :: Node.resolvedAll nodes

end

end Resolved

/-- The first definition in pre-order with the given identifier. -/
def Node.findDefinition? (node : Node) (identifier : String) : Option Definition :=
  node.definitions.find? (·.identifier == identifier)

/-- A tree with its own definitions inlined: each reference by the first definition in the whole tree. -/
def Node.inlined (ast : Node) : Node := ast.resolved ast.findDefinition?

/-! ### What is dropped -/

theorem Node.withoutDefinitions_cons (node : Node) (nodes : List Node) :
    withoutDefinitions (node :: nodes) =
      if node.definition?.isNone then node :: withoutDefinitions nodes
      else withoutDefinitions nodes :=
  List.filter_cons

/-- A definition has no plain text. -/
theorem Node.plainTextAll_withoutDefinitions (nodes : List Node) :
    plainTextAll (withoutDefinitions nodes) = plainTextAll nodes := by
  induction nodes with
  | nil => rfl
  | cons node nodes ih =>
    rw [withoutDefinitions_cons]
    cases h : node.definition? with
    | none => simp [plainTextAll, ih]
    | some d =>
      obtain ⟨position, rfl⟩ := definition?_eq_some h
      simp [plainTextAll, plainText, Leaf.plainText, ih]

theorem Node.definitionsOf_withoutDefinitions_subset (nodes : List Node) :
    definitionsOf (withoutDefinitions nodes) ⊆ definitionsOf nodes := by
  induction nodes with
  | nil => exact List.Subset.refl _
  | cons node nodes ih =>
    rw [withoutDefinitions_cons, definitionsOf_cons]
    split
    · rw [definitionsOf_cons]
      exact List.append_subset.mpr
        ⟨List.subset_append_left _ _, List.subset_append_of_subset_right _ ih⟩
    · exact List.subset_append_of_subset_right _ ih

/-! ### What is resolved -/

section

variable (find? : String → Option Definition)

theorem Leaf.plainText_resolved (kind : Leaf) : (kind.resolved find?).plainText = kind.plainText := by
  cases kind with
  | imageReference alt reference =>
    rw [resolved]
    cases find? reference.identifier <;> rfl
  | _ => rfl

mutual

theorem Node.plainText_resolved : ∀ node : Node, (node.resolved find?).plainText = node.plainText
  | .leaf kind position => kind.plainText_resolved find?
  | .parent kind children position => by
    rw [resolved, plainText, plainText, ← plainTextAll_resolvedAll children]
    split
    · rw [plainTextAll_withoutDefinitions]
    · rfl

theorem Node.plainTextAll_resolvedAll : ∀ nodes : List Node,
    plainTextAll (resolvedAll find? nodes) = plainTextAll nodes
  | [] => rfl
  | node :: nodes => by
    rw [resolvedAll, plainTextAll, plainTextAll, plainText_resolved node,
      plainTextAll_resolvedAll nodes]

end

theorem Leaf.definitions_resolved (kind : Leaf) (position : Option Position) :
    (Node.leaf (kind.resolved find?) position).definitions = (Node.leaf kind position).definitions := by
  cases kind with
  | imageReference alt reference =>
    rw [resolved]
    cases find? reference.identifier <;> rfl
  | _ => rfl

mutual

/-- Resolving makes no definition. -/
theorem Node.definitions_resolved_subset : ∀ node : Node,
    (node.resolved find?).definitions ⊆ node.definitions
  | .leaf kind position => by
    rw [resolved, kind.definitions_resolved find?]
    exact List.Subset.refl _
  | .parent kind children position => by
    have ih := definitionsOf_resolvedAll_subset children
    rw [resolved, definitions_parent, definitions_parent]
    split
    · exact List.Subset.trans (definitionsOf_withoutDefinitions_subset _) ih
    · exact ih

theorem Node.definitionsOf_resolvedAll_subset : ∀ nodes : List Node,
    definitionsOf (resolvedAll find? nodes) ⊆ definitionsOf nodes
  | [] => List.Subset.refl _
  | node :: nodes => by
    rw [resolvedAll, definitionsOf_cons, definitionsOf_cons]
    exact List.append_subset.mpr
      ⟨List.subset_append_of_subset_left _ (definitions_resolved_subset node),
        List.subset_append_of_subset_right _ (definitionsOf_resolvedAll_subset nodes)⟩

end

end

/-- What a tree does not define is not defined after inlining either. -/
theorem Node.findDefinition?_inlined {ast : Node} {identifier : String}
    (h : ast.findDefinition? identifier = none) : ast.inlined.findDefinition? identifier = none := by
  rw [findDefinition?, List.find?_eq_none] at h ⊢
  intro d hd
  exact h d (definitions_resolved_subset _ ast hd)

end MarkdownTree.Mdast
