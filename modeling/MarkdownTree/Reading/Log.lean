import MarkdownTree.Text.Quoted

/-!
The log of a reading: what was ignored, dropped or kept as it could be. A logged value carries its
log with it, so that a reading that fails has a log as well.
-/

namespace MarkdownTree

open Text (quoted)

/-! ### Events -/

/-- Something that a reading does not carry over as it is. -/
inductive Event where
  /-- A definition whose identifier has a definition already. -/
  | duplicateDefinition (identifier : String)
  /-- A definition among blocks, which no block stands for. -/
  | droppedDefinition (identifier : String)
  /-- A part that documents have no node for, kept as a custom node. -/
  | keptUnsupported (literal : String)
  deriving DecidableEq, Repr

inductive Severity where
  | debug
  | warn
  deriving DecidableEq, Repr

namespace Event

def severity : Event → Severity
  | .duplicateDefinition _ | .droppedDefinition _ => .debug
  | .keptUnsupported _ => .warn

/-- The text of an event, identifiers and literals quoted. -/
def text : Event → String
  | .duplicateDefinition identifier =>
    "ignoring duplicate definition for " ++ quoted identifier ++ "; the first one wins"
  | .droppedDefinition identifier =>
    "dropping link definition for " ++ quoted identifier ++ "; its links were resolved inline"
  | .keptUnsupported literal =>
    "keeping unsupported markdown as a custom node: " ++ quoted literal

end Event

/-! ### Logged values -/

/-- A value and the events on the way to it, in order. -/
@[ext] structure Logged (α : Type) where
  value : α
  log : List Event

namespace Logged

variable {α β : Type}

instance : Monad Logged where
  pure a := ⟨a, []⟩
  bind x f := ⟨(f x.value).value, x.log ++ (f x.value).log⟩

@[simp] theorem value_pure (a : α) : (pure a : Logged α).value = a := rfl
@[simp] theorem log_pure (a : α) : (pure a : Logged α).log = [] := rfl
@[simp] theorem value_bind (x : Logged α) (f : α → Logged β) :
    (x >>= f).value = (f x.value).value := rfl
@[simp] theorem log_bind (x : Logged α) (f : α → Logged β) :
    (x >>= f).log = x.log ++ (f x.value).log := rfl

instance : LawfulMonad Logged := LawfulMonad.mk' Logged
  (fun x => Logged.ext rfl (List.append_nil x.log))
  (fun _ _ => rfl)
  (fun x f g => Logged.ext rfl (List.append_assoc x.log (f x.value).log _))

/-- One event. -/
def event (e : Event) : Logged Unit := ⟨(), [e]⟩

@[simp] theorem log_event (e : Event) : (event e).log = [e] := rfl

end Logged

end MarkdownTree
