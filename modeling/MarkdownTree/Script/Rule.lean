import MarkdownTree.Json
import MarkdownTree.Script.Profile

/-!
Rules: an ordered list of conditions with an action each, of which the first that applies to a node
decides. A walk guided by rules keeps a tally: how many calls were made, with a description of the
node of each, and how many nodes were numbered.
-/

namespace MarkdownTree

open Json (required?)

/-! ### Conditions -/

/-- What a rule asks of a node, or of the call that it is seen in. -/
inductive Condition where
  | kind (names : List String)
  | levelBelow (bound : Int)
  | literal (text : String)
  | empty (expected : Bool)
  | listType (name : String)
  | title (expected : Option String)
  | url (expected : Option String)
  | call (number : Int)

namespace Condition

/-- Whether a condition holds of a node seen in a given call. -/
def holds (p : Profile) (calls : Nat) : Condition → Bool
  | .kind names => names.contains p.kind
  | .levelBelow bound => p.level.any fun level => decide ((level.toNat : Int) < bound)
  | .literal text => p.literal == some text
  | .empty expected => p.isEmpty == expected
  | .listType name => p.listType.any (·.name == name)
  | .title expected => p.target.any (·.title == expected)
  | .url expected => p.target.any (·.url == expected)
  | .call number => decide ((calls : Int) = number)

/-- One name, or an array of names. -/
def kindsOfJson? : Json → Option (List String)
  | .string name => some [name]
  | value => value.listOf? Json.string?

def ofMember? : String × Json → Option Condition
  | ("kind", value) => (kindsOfJson? value).map .kind
  | ("level_lt", value) => value.int?.map .levelBelow
  | ("literal", value) => value.string?.map .literal
  | ("empty", value) => value.bool?.map .empty
  | ("list_type", value) => value.string?.map .listType
  | ("title", value) => (value.nullable? Json.string?).map .title
  | ("url", value) => (value.nullable? Json.string?).map .url
  | ("call", value) => value.int?.map .call
  | _ => none

end Condition

/-! ### Rules -/

/-- An action for the nodes of which all conditions hold. -/
structure Rule (Action : Type) where
  conditions : List Condition
  action : Action

namespace Rule

variable {Action : Type}

def applies (rule : Rule Action) (p : Profile) (calls : Nat) : Bool :=
  rule.conditions.all (·.holds p calls)

/-- The action of the first rule that applies. -/
def choose (rules : List (Rule Action)) (p : Profile) (calls : Nat) : Option Action :=
  (rules.find? (·.applies p calls)).map (·.action)

def ofJson? (readAction : Json → Option Action) (value : Json) : Option (Rule Action) := do
  let members ← value.members?
  let conditions ← required? Json.members? "when" members
  let conditions ← conditions.mapM Condition.ofMember?
  let action ← required? readAction "do" members
  some ⟨conditions, action⟩

end Rule

/-! ### Walks guided by rules -/

/-- What a guided walk has done so far. -/
structure Tally where
  /-- A description of the node of each call, in order. -/
  trace : Array String := #[]
  /-- How many nodes were numbered. -/
  numbered : Nat := 0

/-- A step of a guided walk. It may be stopped by a rule, and the tally survives that. -/
abbrev Guided := ExceptT String (StateM Tally)

namespace Guided

/-- Counts a call and finds the action for its node. -/
def consult {Action : Type} (rules : List (Rule Action)) (p : Profile) :
    Guided (Option Action) := do
  modify fun tally => { tally with trace := tally.trace.push p.describe }
  let tally ← get
  pure (Rule.choose rules p tally.trace.size)

/-- The next number of this walk, from one. -/
def nextNumber : Guided Nat := do
  modify fun tally => { tally with numbered := tally.numbered + 1 }
  let tally ← get
  pure tally.numbered

end Guided

end MarkdownTree
