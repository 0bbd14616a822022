import MarkdownTree.Proofs.Reading.Acceptance

/-!
Strict and lenient readings of one tree: the one fails at an unsupported node, the other keeps it. Up to
the first such node they do the same, failures and log included. Main statement: `readNode_lenient`.
-/

namespace MarkdownTree

open Mdast (Node Leaf Parent)
open Reading

variable {α β : Type}

/-! ### Readings that go on -/

namespace Reading

/-- The second reading does what the first one does; or it goes on where the first one fails at an
unsupported node, and logs first of all that it keeps the node. -/
def Relaxes (x y : Reading α) : Prop :=
  y = x ∨ ∃ node rest, x.outcome = .error (.unsupported node) ∧
    y.log = x.log ++ .keptUnsupported node.plainText :: rest

theorem Relaxes.refl (x : Reading α) : x.Relaxes x := .inl rfl

theorem Relaxes.bind {x y : Reading α} {f g : α → Reading β} (h : x.Relaxes y)
    (hfg : ∀ a, (f a).Relaxes (g a)) : Relaxes (x >>= f) (y >>= g) := by
  rcases h with rfl | ⟨node, rest, stopped, kept⟩
  · cases hx : y.outcome with
    | error e =>
      -- neither of the two that come after takes place
      obtain ⟨outcome, log⟩ := bind_of_error hx f
      obtain ⟨outcome', log'⟩ := bind_of_error hx g
      exact .inl (Reading.ext (outcome'.trans outcome.symm) (log'.trans log.symm))
    | ok a =>
      obtain ⟨outcome, log⟩ := bind_of_ok hx f
      obtain ⟨outcome', log'⟩ := bind_of_ok hx g
      rcases hfg a with same | ⟨node, rest, stopped, kept⟩
      · rw [same] at outcome' log'
        exact .inl (Reading.ext (outcome'.trans outcome.symm) (log'.trans log.symm))
      · refine .inr ⟨node, rest, outcome.trans stopped, ?_⟩
        rw [log', log, kept, List.append_assoc]
  · obtain ⟨outcome, log⟩ := bind_of_error stopped f
    -- whatever the second reading does from here on, its log only grows
    obtain ⟨more, hmore⟩ : ∃ more, (y >>= g).log = y.log ++ more := y.log_bind g
    refine .inr ⟨node, rest ++ more, outcome, ?_⟩
    rw [hmore, kept, log, List.append_assoc, List.cons_append]

end Reading

namespace Reader

/-- The same reader, keeping unsupported nodes. -/
def lenient (r : Reader) : Reader := { r with keepUnsupported := true }

variable (r : Reader)

theorem relaxes_keep (node : Node) : (r.keep node).Relaxes (r.lenient.keep node) := by
  cases h : r.keepUnsupported with
  | true =>
    have same : r.lenient = r := by
      obtain ⟨definitions, keep⟩ := r
      rw [lenient]
      exact congrArg (Reader.mk definitions) h.symm
    rw [same]
    exact .refl _
  | false =>
    have stops : r.keep node = throw (.unsupported node) := by
      rw [keep, h]
      rfl
    rw [stops]
    exact .inr ⟨node, [], rfl, rfl⟩

/-! ### Inlines -/

mutual

theorem relaxes_inline : ∀ node : Node, (r.inline node).Relaxes (r.lenient.inline node)
  | .leaf kind position => by
    cases kind with
    | inlineMath | footnoteReference | textExpression =>
      exact (r.relaxes_keep (.leaf _ position)).bind fun _ => .refl _
    | _ => exact .refl _
  | .parent kind children position => by
    have ih := relaxes_inlines children
    cases kind with
    | emphasis | strong | link => exact ih.bind fun _ => .refl _
    | linkReference reference =>
      exact (Relaxes.refl (r.resolve reference)).bind fun _ => ih.bind fun _ => .refl _
    | delete | textElement =>
      exact (r.relaxes_keep (.parent _ children position)).bind fun _ => .refl _
    | _ => exact .refl _

theorem relaxes_inlines : ∀ nodes : List Node,
    (r.inlines nodes).Relaxes (r.lenient.inlines nodes)
  | [] => .refl _
  | node :: nodes => by
    refine (relaxes_inline node).bind ?_
    intro _
    exact (relaxes_inlines nodes).bind fun _ => .refl _

end

/-! ### Blocks -/

mutual

theorem relaxes_block : ∀ node : Node, (r.block node).Relaxes (r.lenient.block node)
  | .leaf kind position => by
    cases kind with
    | yaml | toml | math | esm | flowExpression =>
      exact (r.relaxes_keep (.leaf _ position)).bind fun _ => .refl _
    | _ => exact .refl _
  | .parent kind children position => by
    have ih := relaxes_blocks children
    cases kind with
    | root => exact ih
    | paragraph | heading => exact (r.relaxes_inlines children).bind fun _ => .refl _
    | blockquote => exact ih.bind fun _ => .refl _
    | list => exact (relaxes_items children).bind fun _ => .refl _
    | footnoteDefinition | table | flowElement =>
      exact (r.relaxes_keep (.parent _ children position)).bind fun _ => .refl _
    | _ => exact .refl _

theorem relaxes_blocks : ∀ nodes : List Node,
    (r.blocks nodes).Relaxes (r.lenient.blocks nodes)
  | [] => .refl _
  | node :: nodes => by
    refine (relaxes_block node).bind ?_
    intro _
    exact (relaxes_blocks nodes).bind fun _ => .refl _

theorem relaxes_item : ∀ node : Node, (r.item node).Relaxes (r.lenient.item node)
  | .leaf kind position => .refl _
  | .parent kind children position => by
    cases kind with
    | listItem => exact relaxes_blocks children
    | _ => exact .refl _

theorem relaxes_items : ∀ nodes : List Node, (r.items nodes).Relaxes (r.lenient.items nodes)
  | [] => .refl _
  | node :: nodes => by
    refine (relaxes_item node).bind ?_
    intro _
    exact (relaxes_items nodes).bind fun _ => .refl _

end

end Reader

/-! ### Readings of trees -/

theorem relaxes_readNode (ast : Node) : (readNode false ast).Relaxes (readNode true ast) := by
  have collect : Relaxes (Definitions.collect {} ast : Reading Definitions) _ := .refl _
  refine collect.bind ?_
  intro definitions
  exact Reader.relaxes_blocks ⟨definitions, false⟩ [ast]

/-- Where unsupported nodes are kept, none offends for being one. -/
theorem offence_ne_unsupported (defines : String → Bool) (place : Place) (node node' : Node) :
    offence true defines place node ≠ some (.unsupported node') := by
  intro h
  cases place with
  | item =>
    simp only [offence] at h
    split at h <;> simp at h
  | block =>
    simp only [offence, Bool.not_true, Bool.and_false] at h
    split at h <;> simp at h
  | inline =>
    simp only [offence, Bool.not_true, Bool.and_false] at h
    split at h
    · simp at h
    · obtain ⟨reference, -, h⟩ := Option.bind_eq_some_iff.mp h
      split at h <;> simp at h

theorem outcome_readNode_ne_unsupported (ast node : Node) :
    (readNode true ast).outcome ≠ .error (.unsupported node) := by
  intro h
  rw [← failure?_eq_some, failure?_readNode] at h
  obtain ⟨v, -, hv⟩ := List.exists_of_findSome?_eq_some h
  exact offence_ne_unsupported ast.defines v.place v.node node hv

/-- **Strict and lenient readings part at the first unsupported node.** A lenient reading never fails at
such a node, and its log begins with that of the strict one. Where the strict reading does not fail at
such a node, both come out alike with the same log. Where it does, the lenient one logs next that it
keeps that node with its plain text. -/
theorem readNode_lenient (ast : Node) :
    (∀ node, (readNode true ast).outcome ≠ .error (.unsupported node)) ∧
    (readNode false ast).log <+: (readNode true ast).log ∧
    ((∀ node, (readNode false ast).outcome ≠ .error (.unsupported node)) →
      (readNode true ast).outcome = (readNode false ast).outcome ∧
      (readNode true ast).log = (readNode false ast).log) ∧
    ∀ node, (readNode false ast).outcome = .error (.unsupported node) →
      ∃ rest, (readNode true ast).log =
        (readNode false ast).log ++ .keptUnsupported node.plainText :: rest := by
  refine ⟨outcome_readNode_ne_unsupported ast, ?_, ?_, ?_⟩
  · rcases relaxes_readNode ast with same | ⟨node, rest, -, kept⟩
    · exact ⟨[], by rw [same, List.append_nil]⟩
    · rw [kept]
      exact List.prefix_append ..
  · intro supported
    rcases relaxes_readNode ast with same | ⟨node, rest, stopped, -⟩
    · rw [same]
      exact ⟨rfl, rfl⟩
    · exact absurd stopped (supported node)
  · intro node hnode
    rcases relaxes_readNode ast with same | ⟨node', rest, stopped, kept⟩
    · -- both would fail at the node, but the lenient one does not
      rw [← same] at hnode
      exact absurd hnode (outcome_readNode_ne_unsupported ast node)
    · rw [stopped] at hnode
      obtain rfl : node' = node := by simpa using hnode
      exact ⟨rest, kept⟩

/-- A definition, then a text that is struck out, then a table. -/
def struckOut : Node :=
  .parent .root [
    .leaf (.definition ⟨"/a", none, "a", none⟩) none,
    .parent .paragraph [
      .parent .delete [.leaf (.text "no") none] none] none,
    .parent (.table []) [] none] none

/-- The strict reading ends inside the paragraph, after it has dropped the definition. -/
theorem readNode_lenient_struckOut :
    (readNode false struckOut).outcome =
      .error (.unsupported (.parent .delete [.leaf (.text "no") none] none)) ∧
    (readNode false struckOut).log = [.droppedDefinition "a"] ∧
    (readNode true struckOut).log =
      [.droppedDefinition "a", .keptUnsupported "no", .keptUnsupported ""] ∧
    ∃ rest, (readNode true struckOut).log =
      (readNode false struckOut).log ++ .keptUnsupported "no" :: rest :=
  ⟨rfl, rfl, rfl, (readNode_lenient struckOut).2.2.2 _ rfl⟩

end MarkdownTree
