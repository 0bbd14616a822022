import MarkdownTree.Proofs.Reading.Acceptance
import MarkdownTree.Proofs.Reading.Records
import MarkdownTree.Proofs.Reading.Resolve
import Mathlib.Data.List.TakeWhile

/-!
What a reading logs. First come the definitions that are ignored; then, in pre-order, each definition that
is dropped and each node that is kept as a custom node. A reading that fails has logged what it came to
before the node that it fails at. The proof follows the reader node by node, as for what it fails with.
Main statement: `readNode_log`.
-/

namespace MarkdownTree

open Mdast (Node Leaf Parent Definition)
open Address Reading

/-! ### What is logged of a node -/

/-- The event that stands for a node in a place, if it does not offend there. -/
def Mdast.Node.event? (place : Place) : Node → Option Event
  | .leaf (.definition d) _ =>
    if place = .block then some (.droppedDefinition d.identifier) else none
  | node => if node.isUnmodelled then some (.keptUnsupported node.plainText) else none

/-- The literal of a warning: what was kept as a custom node. -/
def Event.kept? : Event → Option String
  | .keptUnsupported literal => some literal
  | .duplicateDefinition _ | .droppedDefinition _ => none

/-- There is a literal just where the event is a warning. -/
theorem Event.isSome_kept? (event : Event) : event.kept?.isSome ↔ event.severity = .warn := by
  cases event <;> simp [kept?, severity]

/-- The event is logged at an address of a tree: of a definition among blocks that is come to, or of an
unmodelled node that is. -/
inductive Mdast.Node.Logs (keep : Bool) (ast : Node) (p : Address) : Event → Prop
  | dropped {d : Definition} {position : Option Mdast.Position}
      (visited : Visited keep ast.defines .block ast p .block (.leaf (.definition d) position)) :
      Logs keep ast p (.droppedDefinition d.identifier)
  | kept {place : Place} {node : Node}
      (visited : Visited keep ast.defines .block ast p place node)
      (unmodelled : node.isUnmodelled = true) :
      Logs keep ast p (.keptUnsupported node.plainText)

/-- The node at an address is the first one that offends, with an error. -/
def Mdast.Node.OffendsFirst (keep : Bool) (ast : Node) (p : Address) (e : ReadError) : Prop :=
  ∃ place node, Visited keep ast.defines .block ast p place node ∧
    offence keep ast.defines place node = some e ∧
    ∀ q place' node', Visited keep ast.defines .block ast q place' node' → q.PreOrder p →
      offence keep ast.defines place' node' = none

theorem Mdast.Node.event?_eq_some {place : Place} {node : Node} {event : Event} :
    node.event? place = some event ↔
      (∃ d position, node = .leaf (.definition d) position ∧ place = .block ∧
        event = .droppedDefinition d.identifier) ∨
      node.isUnmodelled = true ∧ event = .keptUnsupported node.plainText := by
  unfold event?
  split
  · next d position =>
    have modelled : ¬ (Node.leaf (.definition d) position).isUnmodelled = true := nofun
    rw [or_iff_left fun h => modelled h.1, Option.ite_none_right_eq_some, Option.some.injEq]
    constructor
    · rintro ⟨rfl, rfl⟩
      exact ⟨d, position, rfl, rfl, rfl⟩
    · rintro ⟨d', position', same, rfl, rfl⟩
      obtain ⟨h, -⟩ := Node.leaf.inj same
      exact ⟨rfl, by rw [Leaf.definition.inj h]⟩
  · next other =>
    rw [or_iff_right, Option.ite_none_right_eq_some, Option.some.injEq,
      eq_comm (a := event)]
    rintro ⟨d, position, rfl, -⟩
    exact other d position rfl

theorem Mdast.Node.logs_iff {keep : Bool} {ast : Node} {p : Address} {event : Event} :
    ast.Logs keep p event ↔
      ∃ v : Place × Node, Visited keep ast.defines .block ast p v.1 v.2 ∧
        v.2.event? v.1 = some event := by
  simp only [event?_eq_some, Prod.exists]
  constructor
  · rintro (⟨visited⟩ | ⟨visited, unmodelled⟩)
    · exact ⟨_, _, visited, .inl ⟨_, _, rfl, rfl, rfl⟩⟩
    · exact ⟨_, _, visited, .inr ⟨unmodelled, rfl⟩⟩
  · rintro ⟨place, node, visited, ⟨d, position, rfl, rfl, rfl⟩ | ⟨unmodelled, rfl⟩⟩
    · exact .dropped visited
    · exact .kept visited unmodelled

namespace Reading

/-! ### Logs one after the other -/

variable {α β γ : Type}

@[simp] theorem log_pure (a : α) : log (pure a) = [] := rfl

@[simp] theorem log_throw (e : ReadError) : log (throw e : Reading α) = [] := rfl

@[simp] theorem log_event (e : Event) : log (Logged.event e : Reading Unit) = [e] := rfl

/-- The log of a reading whose second part logs the same, whatever the first gives. -/
theorem log_bind_const {x : Reading α} {f : α → Reading β} {rest : List Event}
    (h : ∀ a, (f a).log = rest) :
    (x >>= f).log = x.log ++ if x.failure? = none then rest else [] := by
  cases outcome : x.outcome with
  | ok a => rw [(bind_of_ok outcome f).2, h, if_pos (failure?_eq_none.mpr ⟨a, outcome⟩)]
  | error e =>
    rw [(bind_of_error outcome f).2, failure?_eq_some.mpr outcome, if_neg (Option.some_ne_none e),
      List.append_nil]

@[simp] theorem log_map (x : Reading α) (f : α → β) : (f <$> x).log = x.log := by
  rw [← bind_pure_comp, log_bind_const fun a => log_pure (f a), ite_self, List.append_nil]

/-- Of two readings in a row the second logs something only after the first has not failed. -/
@[simp] theorem log_seq (x : Reading α) (y : Reading β) (f : α → β → γ) :
    (x >>= fun a => f a <$> y).log = x.log ++ if x.failure? = none then y.log else [] :=
  log_bind_const fun a => log_map y (f a)

end Reading

namespace Reader

variable (r : Reader)

@[simp] theorem log_keep (node : Node) :
    (r.keep node).log = if r.keepUnsupported then [.keptUnsupported node.plainText] else [] := by
  unfold keep
  cases r.keepUnsupported <;> rfl

@[simp] theorem log_resolve (reference : Mdast.Reference) : (r.resolve reference).log = [] := by
  unfold resolve
  cases r.definitions.find? reference.identifier <;> rfl

/-! ### What is logged before the first offence -/

/-- The events of the visited nodes before the first offending one. -/
def eventsOf (vs : List Visit) : List Event :=
  (vs.takeWhile fun v => (v.offence r.keepUnsupported r.defines).isNone).filterMap fun v =>
    v.node.event? v.place

def events (place : Place) (p : Address) (node : Node) : List Event :=
  r.eventsOf (visits r.keepUnsupported r.defines place p node)

def eventsAll (place : Place) (p : Address) (i : Nat) (nodes : List Node) : List Event :=
  r.eventsOf (visitsAll r.keepUnsupported r.defines place p i nodes)

theorem eventsOf_cons (v : Visit) (vs : List Visit) :
    r.eventsOf (v :: vs) =
      if r.offence v.place v.node = none then
        (v.node.event? v.place).toList ++ r.eventsOf vs
      else [] := by
  rw [eventsOf, List.takeWhile_cons, offence_visit]
  cases r.offence v.place v.node with
  | some e => rfl
  | none =>
    cases h : v.node.event? v.place <;> simp [eventsOf, h]

theorem eventsOf_append (vs ws : List Visit) :
    r.eventsOf (vs ++ ws) =
      r.eventsOf vs ++
        if vs.findSome? (Visit.offence r.keepUnsupported r.defines) = none then r.eventsOf ws
        else [] := by
  induction vs with
  | nil => rfl
  | cons v vs ih =>
    rw [List.cons_append, eventsOf_cons, eventsOf_cons, ih, List.findSome?_cons, offence_visit]
    cases r.offence v.place v.node <;> simp

theorem events_leaf (place : Place) (p : Address) (kind : Leaf)
    (position : Option Mdast.Position) :
    r.events place p (.leaf kind position) =
      if r.offence place (.leaf kind position) = none then
        ((Node.leaf kind position).event? place).toList
      else [] := by
  rw [events, visits, eventsOf_cons]
  simp [eventsOf]

/-- Of what is below a node something is logged only after the node itself. -/
theorem events_parent (place : Place) (p : Address) (kind : Parent) (children : List Node)
    (position : Option Mdast.Position) :
    r.events place p (.parent kind children position) =
      if r.offence place (.parent kind children position) = none then
        ((Node.parent kind children position).event? place).toList ++
          (kind.childPlace.elim [] fun inside => r.eventsAll inside p 0 children)
      else [] := by
  rw [events, visits, eventsOf_cons, visitedPlace]
  refine ite_congr rfl (fun fine => ?_) fun _ => rfl
  rw [offence] at fine
  rw [fine]
  cases kind.childPlace <;> rfl

theorem eventsAll_cons (place : Place) (p : Address) (i : Nat) (node : Node) (nodes : List Node) :
    r.eventsAll place p i (node :: nodes) =
      r.events place (p ++ [i]) node ++
        if r.firstOffence place (p ++ [i]) node = none then r.eventsAll place p (i + 1) nodes
        else [] := by
  rw [eventsAll, visitsAll, eventsOf_append]
  rfl

/-! ### Readings of nodes -/

mutual

theorem log_inline : ∀ (p : Address) (node : Node),
    (r.inline node).log = r.events .inline p node
  | p, .leaf kind position => by
    rw [events_leaf]
    cases kind <;>
      simp [inline, offence, MarkdownTree.offence, Node.isPhrasing, Node.isHtml,
        Node.isUnmodelled, Node.reference?, Node.event?]
  | p, .parent kind children position => by
    have ih := log_inlines p 0 children
    rw [events_parent]
    cases kind <;>
      simp [inline, ih, offence, MarkdownTree.offence, Parent.childPlace, Node.isPhrasing,
        Node.isHtml, Node.isUnmodelled, Node.reference?, Node.event?]

theorem log_inlines : ∀ (p : Address) (i : Nat) (nodes : List Node),
    (r.inlines nodes).log = r.eventsAll .inline p i nodes
  | p, i, [] => by
    rw [inlines]
    rfl
  | p, i, node :: nodes => by
    -- The rest is read just if nothing in the first node offends.
    rw [eventsAll_cons, ← log_inline, ← log_inlines p (i + 1), ← failure?_inline]
    simp [inlines]

end

mutual

theorem log_block : ∀ (p : Address) (node : Node),
    (r.block node).log = r.events .block p node
  | p, .leaf kind position => by
    rw [events_leaf]
    cases kind <;>
      simp [block, offence, MarkdownTree.offence, Node.isPhrasing, Node.isPart,
        Node.isUnmodelled, Node.event?]
  | p, .parent kind children position => by
    have ih := log_blocks p 0 children
    have ihItems := log_items p 0 children
    have ihText := r.log_inlines p 0 children
    rw [events_parent]
    cases kind <;>
      simp [block, ih, ihItems, ihText, offence, MarkdownTree.offence, Parent.childPlace,
        Node.isPhrasing, Node.isPart, Node.isUnmodelled, Node.event?]

theorem log_blocks : ∀ (p : Address) (i : Nat) (nodes : List Node),
    (r.blocks nodes).log = r.eventsAll .block p i nodes
  | p, i, [] => by
    rw [blocks]
    rfl
  | p, i, node :: nodes => by
    rw [eventsAll_cons, ← log_block, ← log_blocks p (i + 1), ← failure?_block]
    simp [blocks]

theorem log_item : ∀ (p : Address) (node : Node),
    (r.item node).log = r.events .item p node
  | p, .leaf kind position => by
    rw [events_leaf, item]
    rfl
  | p, .parent kind children position => by
    have ih := log_blocks p 0 children
    rw [events_parent]
    cases kind <;>
      simp [item, ih, offence, MarkdownTree.offence, Parent.childPlace, Node.isListItem,
        Node.isUnmodelled, Node.event?]

theorem log_items : ∀ (p : Address) (i : Nat) (nodes : List Node),
    (r.items nodes).log = r.eventsAll .item p i nodes
  | p, i, [] => by
    rw [items]
    rfl
  | p, i, node :: nodes => by
    rw [eventsAll_cons, ← log_item, ← log_items p (i + 1), ← failure?_item]
    simp [items]

end

end Reader

/-! ### The visited nodes of a tree -/

/-- The visited nodes of a tree with their addresses, each with its place. -/
def visitPlaces (keep : Bool) (ast : Node) : List (Address × Place × Node) :=
  (visits keep ast.defines .block [] ast).map fun v => (v.address, v.place, v.node)

/-- The events of the nodes before the first offending one, each with the address of its node. -/
def eventPlaces (keep : Bool) (ast : Node) : List (Address × Event) :=
  filterPlaces (fun v => v.2.event? v.1)
    ((visitPlaces keep ast).takeWhile fun o => (offence keep ast.defines o.2.1 o.2.2).isNone)

section VisitPlaces

variable {keep : Bool} {ast : Node}

theorem visitListing : PreOrderListing (visitPlaces keep ast) fun p v =>
    Visited keep ast.defines .block ast p v.1 v.2 := by
  refine ⟨?_, List.pairwise_map.mpr (pairwise_visits .block [] ast)⟩
  rintro p ⟨place, node⟩
  rw [visitPlaces, List.mem_map]
  constructor
  · rintro ⟨v, hv, h⟩
    cases h
    exact mem_visits_top.mp hv
  · intro visited
    exact ⟨⟨p, place, node⟩, mem_visits_top.mpr visited, rfl⟩

theorem failure?_eq_some_iff_offendsFirst {e : ReadError} :
    (readNode keep ast).failure? = some e ↔ ∃ p, ast.OffendsFirst keep p e := by
  have listed : (readNode keep ast).failure? =
      (visitPlaces keep ast).findSome? fun o => offence keep ast.defines o.2.1 o.2.2 := by
    rw [failure?_readNode, visitPlaces, List.findSome?_map]
    rfl
  rw [listed]
  refine (visitListing.findSome?_eq_some
    (f := fun v : Place × Node => offence keep ast.defines v.1 v.2)).trans ?_
  simp only [Mdast.Node.OffendsFirst, Prod.exists, Prod.forall]

/-- What is logged of the definitions comes before what is logged of the nodes that are read. -/
theorem log_readNode :
    (readNode keep ast).log =
      (Definitions.collect {} ast).log ++ (eventPlaces keep ast).map Prod.snd := by
  let r : Reader := ⟨(Definitions.collect {} ast).value, keep⟩
  have hread : (readNode keep ast).log =
      (Definitions.collect {} ast).log ++ [] ++ (r.blocks [ast]).log := rfl
  have hlog : (r.blocks [ast]).log = r.events .block [] ast := by
    simp [Reader.blocks, r.log_block []]
  rw [hread, hlog, List.append_nil, eventPlaces, map_snd_filterPlaces, visitPlaces,
    List.takeWhile_map, List.map_map, List.filterMap_map, Reader.events, Reader.eventsOf,
    defines_collect]
  rfl

section Ok

variable {doc : Document} (ok : (readNode keep ast).outcome = .ok doc)

include ok

theorem offence_eq_none_of_ok :
    ∀ v ∈ visits keep ast.defines .block [] ast, v.offence keep ast.defines = none := by
  rw [← List.findSome?_eq_none_iff, ← failure?_readNode, failure?_eq_none]
  exact ⟨doc, ok⟩

theorem eventPlaces_of_ok :
    eventPlaces keep ast = filterPlaces (fun v => v.2.event? v.1) (visitPlaces keep ast) := by
  rw [eventPlaces, List.takeWhile_eq_self_iff.mpr]
  intro o ho
  obtain ⟨v, hv, rfl⟩ := List.mem_map.mp ho
  exact Option.isNone_iff_eq_none.mpr (offence_eq_none_of_ok ok v hv)

/-- In a tree that is read every definition and every unmodelled node that is visited is logged. -/
theorem eventListing_of_ok : PreOrderListing (eventPlaces keep ast) (ast.Logs keep) := by
  rw [eventPlaces_of_ok ok]
  exact (visitListing.filterPlaces _).congr fun p event => Node.logs_iff.symm

end Ok

/-- Of a tree that is not read those are logged that come before the first offending node. -/
theorem eventListing_of_offendsFirst {p : Address} {e : ReadError} (h : ast.OffendsFirst keep p e) :
    PreOrderListing (eventPlaces keep ast) fun q event => ast.Logs keep q event ∧ q.PreOrder p := by
  obtain ⟨place, node, visited, bad, fine⟩ := h
  let ok (v : Place × Node) : Bool := (offence keep ast.defines v.1 v.2).isNone
  have stops : ok (place, node) = false := congrArg Option.isNone bad
  have before := visitListing.takeWhile visited stops
    fun q v hv hq => Option.isNone_iff_eq_none.mpr (fine q v.1 v.2 hv hq)
  refine (before.filterPlaces _).congr fun q event => ?_
  rw [Node.logs_iff]
  constructor
  · rintro ⟨v, ⟨hv, hq⟩, hevent⟩
    exact ⟨⟨v, hv, hevent⟩, hq⟩
  · rintro ⟨⟨v, hv, hevent⟩, hq⟩
    exact ⟨v, ⟨hv, hq⟩, hevent⟩

end VisitPlaces

/-! ### The literals of custom nodes -/

/-- The literal of a custom node. -/
def Record.custom? : Record → Option String
  | .leafBlock (.custom literal) | .leafInline (.custom literal) => some literal
  | _ => none

/-- The literals of the custom nodes of a document, blocks and inlines, in pre-order. -/
def Document.customLiterals (doc : Document) : List String := doc.records.filterMap Record.custom?

/-- A node becomes a custom node with a literal just if it is logged as kept with it. -/
theorem bind_custom?_record? (find? : String → Option Definition) (place : Place) (node : Node) :
    (node.record? find? place).bind Record.custom? = (node.event? place).bind Event.kept? := by
  cases node with
  | leaf kind position =>
    cases kind with
    | html | definition => cases place <;> rfl
    | code value lang info => cases lang <;> cases info <;> rfl
    | imageReference alt reference =>
      rw [Node.record?, Leaf.record?]
      cases find? reference.identifier <;> rfl
    | _ => rfl
  | parent kind children position =>
    cases kind with
    | linkReference reference =>
      rw [Node.record?]
      cases find? reference.identifier <;> rfl
    | _ => rfl

section

variable {keep : Bool} {defines : String → Bool}

mutual

/-- Where no node offends, the nodes that are visited are those that are reached. -/
theorem map_visits : ∀ (place : Place) (p : Address) (node : Node),
    (∀ v ∈ visits keep defines place p node, v.offence keep defines = none) →
      (visits keep defines place p node).map (fun v => (v.place, v.node)) = node.reached place
  | place, p, .leaf kind position, _ => rfl
  | place, p, .parent kind children position, fine => by
    rw [visits, List.forall_mem_cons] at fine
    obtain ⟨here, below⟩ := fine
    have inner : visitedPlace keep defines place kind children position = kind.childPlace := by
      rw [Visit.offence] at here
      rw [visitedPlace, here]
    rw [visits, Node.reached, List.map_cons]
    rw [inner] at below ⊢
    cases h : kind.childPlace with
    | none => rfl
    | some inside =>
      rw [h] at below
      rw [map_visitsAll inside p 0 children below]

theorem map_visitsAll : ∀ (place : Place) (p : Address) (i : Nat) (nodes : List Node),
    (∀ v ∈ visitsAll keep defines place p i nodes, v.offence keep defines = none) →
      (visitsAll keep defines place p i nodes).map (fun v => (v.place, v.node)) =
        Node.reachedAll place nodes
  | place, p, i, [], _ => rfl
  | place, p, i, node :: nodes, fine => by
    rw [visitsAll, List.forall_mem_append] at fine
    rw [visitsAll, List.map_append, Node.reachedAll, map_visits place (p ++ [i]) node fine.1,
      map_visitsAll place p (i + 1) nodes fine.2]

end

end

/-- The literals that are logged as kept are those of the custom nodes. -/
theorem filterMap_kept? {keep : Bool} {ast : Node} {doc : Document}
    (ok : (readNode keep ast).outcome = .ok doc) :
    ((eventPlaces keep ast).map Prod.snd).filterMap Event.kept? = doc.customLiterals := by
  let r : Reader := ⟨(Definitions.collect {} ast).value, keep⟩
  have knows : r.Knows ast.findDefinition? := Definitions.find?_collect ast
  have records := Reader.records_blocks knows [ast] doc ok
  rw [Node.recordsAll_cons] at records
  have reached : (visitPlaces keep ast).map Prod.snd = ast.reached .block := by
    rw [visitPlaces, List.map_map]
    exact map_visits .block [] ast (offence_eq_none_of_ok ok)
  have all : doc.records =
      (ast.reached .block).filterMap fun v => v.2.record? ast.findDefinition? v.1 :=
    records.trans (List.append_nil _)
  rw [eventPlaces_of_ok ok, map_snd_filterPlaces, reached, Document.customLiterals, all,
    List.filterMap_filterMap, List.filterMap_filterMap]
  exact List.filterMap_congr fun v _ => (bind_custom?_record? ast.findDefinition? v.1 v.2).symm

/-! ### Main statement -/

/-- **The log accounts for what is dropped and what is kept.** First come, in pre-order, the definitions
that come after another one with the same identifier. If the tree is read, there follow, in pre-order, all
visited definitions among blocks and all visited unmodelled nodes, and the literals of the latter are those
of the custom nodes of the document, in the same order. If it is not read, there follow those of them that
come before the first offending node. -/
theorem readNode_log (keep : Bool) (ast : Node) :
    ∃ (repeated : List (Address × Definition)) (reading : List (Address × Event)),
      (readNode keep ast).log =
        repeated.map (fun o => .duplicateDefinition o.2.identifier) ++ reading.map Prod.snd ∧
      PreOrderListing repeated ast.RepeatsDefinition ∧
      (∀ doc, (readNode keep ast).outcome = .ok doc →
        PreOrderListing reading (ast.Logs keep) ∧
        (reading.map Prod.snd).filterMap Event.kept? = doc.customLiterals) ∧
      ∀ e, (readNode keep ast).outcome = .error e →
        ∃ p, ast.OffendsFirst keep p e ∧
          PreOrderListing reading fun q event => ast.Logs keep q event ∧ q.PreOrder p := by
  obtain ⟨repeated, log, listing⟩ := Definitions.exists_log_collect ast
  refine ⟨repeated, eventPlaces keep ast, ?_, listing, ?_, ?_⟩
  · rw [log_readNode, log]
  · intro doc ok
    exact ⟨eventListing_of_ok ok, filterMap_kept? ok⟩
  · intro e failed
    obtain ⟨p, first⟩ := failure?_eq_some_iff_offendsFirst.mp (failure?_eq_some.mpr failed)
    exact ⟨p, first, eventListing_of_offendsFirst first⟩

/-- The definition in the table is logged as a repeated one and not as a dropped one; where nodes are not
kept, the log ends before what is struck out. -/
example :
    let ast : Node := .parent .root [
      .leaf (.definition ⟨"/1", none, "a", none⟩) none,
      .parent .blockquote [
        .parent .paragraph [.parent .delete [.leaf (.text "x") none] none] none,
        .leaf (.definition ⟨"/2", none, "a", none⟩) none] none,
      .parent (.table []) [.leaf (.definition ⟨"/3", none, "a", none⟩) none] none] none
    (readNode true ast).log =
        [.duplicateDefinition "a", .duplicateDefinition "a", .droppedDefinition "a",
          .keptUnsupported "x", .droppedDefinition "a", .keptUnsupported ""] ∧
      (readNode false ast).log =
        [.duplicateDefinition "a", .duplicateDefinition "a", .droppedDefinition "a"] :=
  ⟨rfl, rfl⟩

end MarkdownTree
