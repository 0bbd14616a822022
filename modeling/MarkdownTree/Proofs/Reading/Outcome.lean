import MarkdownTree.Reading.Reader

/-!
What comes out of a reading: a value, about which one wants to know something, or the cause of its
failure; and in both cases a log. Each is had part by part for readings one after the other.
-/

namespace MarkdownTree

open Mdast (Node Reference)

variable {α β γ : Type}

namespace Reading

def outcome (x : Reading α) : Except ReadError α := x.run.value

theorem outcome_bind (x : Reading α) (f : α → Reading β) :
    outcome (x >>= f) = x.outcome >>= fun a => (f a).outcome := by
  rw [outcome, ExceptT.run_bind, Logged.value_bind, outcome]
  cases x.run.value <;> rfl

/-! ### What a reading logs -/

def log (x : Reading α) : List Event := x.run.log

/-- A log only grows. -/
theorem log_bind (x : Reading α) (f : α → Reading β) :
    ∃ more, (x >>= f).log = x.log ++ more := by
  rw [log, ExceptT.run_bind, Logged.log_bind]
  exact ⟨_, rfl⟩

/-- A reading after one with a value. -/
theorem bind_of_ok {x : Reading α} {a : α} (h : x.outcome = .ok a) (f : α → Reading β) :
    (x >>= f).outcome = (f a).outcome ∧ (x >>= f).log = x.log ++ (f a).log := by
  have value : x.run.value = .ok a := h
  constructor
  · rw [outcome_bind, h]
    rfl
  · rw [log, ExceptT.run_bind, Logged.log_bind, value]
    rfl

/-- A reading after a failed one does not take place. -/
theorem bind_of_error {x : Reading α} {e : ReadError} (h : x.outcome = .error e)
    (f : α → Reading β) : (x >>= f).outcome = .error e ∧ (x >>= f).log = x.log := by
  have value : x.run.value = .error e := h
  constructor
  · rw [outcome_bind, h]
    rfl
  · rw [log, ExceptT.run_bind, Logged.log_bind, value]
    exact List.append_nil _

/-- There is nothing more to a reading. -/
theorem ext {x y : Reading α} (outcome : x.outcome = y.outcome) (log : x.log = y.log) : x = y :=
  Logged.ext outcome log

/-! ### The value of a reading -/

/-- The value of a reading that does not fail. -/
def value? (x : Reading α) : Option α := x.outcome.toOption

theorem value?_eq_some {x : Reading α} {a : α} : x.value? = some a ↔ x.outcome = .ok a := by
  unfold value?
  cases x.outcome <;> simp [Except.toOption]

@[simp] theorem value?_pure (a : α) : value? (pure a) = some a := rfl

@[simp] theorem value?_throw (e : ReadError) : value? (throw e : Reading α) = none := rfl

@[simp] theorem value?_event (e : Event) : value? (Logged.event e : Reading Unit) = some () := rfl

@[simp] theorem value?_bind (x : Reading α) (f : α → Reading β) :
    value? (x >>= f) = x.value?.bind fun a => (f a).value? := by
  unfold value?
  rw [outcome_bind]
  cases x.outcome <;> rfl

@[simp] theorem value?_map (f : α → β) (x : Reading α) : value? (f <$> x) = x.value?.map f := by
  rw [← bind_pure_comp, value?_bind]
  cases x.value? <;> rfl

theorem value?_bind_congr {x y : Reading α} (h : x.value? = y.value?) (f : α → Reading β) :
    value? (x >>= f) = value? (y >>= f) := by
  rw [value?_bind, value?_bind, h]

/-! ### What a reading gives -/

/-- Whatever the reading gives, if it does not fail, has a property. -/
def Gives (x : Reading α) (P : α → Prop) : Prop := ∀ a, x.outcome = .ok a → P a

theorem Gives.mono {x : Reading α} {P Q : α → Prop} (h : x.Gives P) (imp : ∀ a, P a → Q a) :
    x.Gives Q := fun a ha => imp a (h a ha)

@[simp] theorem gives_pure {a : α} {P : α → Prop} : Gives (pure a) P ↔ P a :=
  ⟨fun h => h a rfl, fun h b hb => by cases hb; exact h⟩

@[simp] theorem gives_throw {e : ReadError} {P : α → Prop} : Gives (throw e : Reading α) P :=
  nofun

/-- The two readings happen one after the other. -/
@[simp] theorem gives_bind {x : Reading α} {f : α → Reading β} {P : β → Prop} :
    Gives (x >>= f) P ↔ x.Gives fun a => (f a).Gives P := by
  unfold Gives
  rw [outcome_bind]
  cases x.outcome with
  | ok a => exact ⟨fun h a' ha => by cases ha; exact h, fun h => h a rfl⟩
  | error e => exact ⟨fun _ => nofun, fun _ => nofun⟩

theorem Gives.bind {x : Reading α} {f : α → Reading β} {P : α → Prop} {Q : β → Prop}
    (h : x.Gives P) (hf : ∀ a, P a → (f a).Gives Q) : Gives (x >>= f) Q := by
  rw [gives_bind]
  exact h.mono hf

/-! ### Failure -/

/-- The cause of a failed reading. -/
def failure? (x : Reading α) : Option ReadError :=
  match x.outcome with
  | .ok _ => none
  | .error e => some e

theorem failure?_eq_some {x : Reading α} {e : ReadError} :
    x.failure? = some e ↔ x.outcome = .error e := by
  unfold failure?
  cases x.outcome <;> simp

theorem failure?_eq_none {x : Reading α} : x.failure? = none ↔ ∃ a, x.outcome = .ok a := by
  unfold failure?
  cases x.outcome <;> simp

@[simp] theorem failure?_pure (a : α) : failure? (pure a) = none := rfl

@[simp] theorem failure?_throw (e : ReadError) : failure? (throw e : Reading α) = some e := rfl

@[simp] theorem failure?_event (e : Event) : failure? (Logged.event e : Reading Unit) = none := rfl

/-- How a reading fails whose second part fails in one way, whatever the first gives. -/
theorem failure?_bind {x : Reading α} {f : α → Reading β} {r : Option ReadError}
    (h : ∀ a, (f a).failure? = r) : failure? (x >>= f) = x.failure?.or r := by
  unfold failure? at h ⊢
  rw [outcome_bind]
  cases x.outcome with
  | ok a => exact h a
  | error e => rfl

@[simp] theorem failure?_map (x : Reading α) (f : α → β) : failure? (f <$> x) = x.failure? := by
  rw [← bind_pure_comp, failure?_bind fun a => failure?_pure (f a), Option.or_none]

/-- Two readings in a row fail as the first one that fails. -/
@[simp] theorem failure?_seq (x : Reading α) (y : Reading β) (f : α → β → γ) :
    failure? (x >>= fun a => f a <$> y) = x.failure?.or y.failure? :=
  failure?_bind fun a => failure?_map y (f a)

end Reading

namespace Reader

open Reading

variable (r : Reader)

/-- The reader has a definition for an identifier. -/
def defines (identifier : String) : Bool := (r.definitions.find? identifier).isSome

theorem gives_keep (node : Node) : (r.keep node).Gives (· = node.plainText) := by
  unfold keep
  split
  · rw [gives_bind]
    intro _ _
    exact gives_pure.mpr rfl
  · exact gives_throw

/-- What is made of the literal of a node that is kept, by a reader that keeps such nodes. -/
theorem gives_kept {node : Node} {f : String → α} {P : α → Prop}
    (h : r.keepUnsupported = true → P (f node.plainText)) :
    (r.keep node >>= fun literal => pure (f literal)).Gives P := by
  rw [gives_bind, keep]
  split
  · next kept =>
    rw [gives_bind]
    intro _ _
    exact gives_pure.mpr (gives_pure.mpr (h kept))
  · exact gives_throw

theorem gives_resolve (reference : Reference) :
    (r.resolve reference).Gives fun target =>
      r.definitions.find? reference.identifier = some target := by
  unfold resolve
  cases r.definitions.find? reference.identifier with
  | none => exact gives_throw
  | some target => exact gives_pure.mpr rfl

@[simp] theorem value?_keep (node : Node) :
    (r.keep node).value? = if r.keepUnsupported then some node.plainText else none := by
  unfold keep
  cases r.keepUnsupported <;> rfl

@[simp] theorem value?_resolve (reference : Reference) :
    (r.resolve reference).value? = r.definitions.find? reference.identifier := by
  unfold resolve
  cases r.definitions.find? reference.identifier <;> rfl

@[simp] theorem failure?_keep (node : Node) :
    (r.keep node).failure? = if !r.keepUnsupported then some (.unsupported node) else none := by
  unfold keep
  cases r.keepUnsupported <;> rfl

@[simp] theorem failure?_resolve (reference : Reference) :
    (r.resolve reference).failure? =
      if r.defines reference.identifier then none
      else some (.missingDefinition (reference.label.getD reference.identifier)) := by
  unfold resolve defines
  cases r.definitions.find? reference.identifier <;> rfl

end Reader

end MarkdownTree
