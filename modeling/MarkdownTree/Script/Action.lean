import MarkdownTree.Script.Rule

/-!
The actions that rules can ask for: edits for a replacing, emissions for a collecting, verdicts for
a filtering. Each turns a list of rules into the function that a walk takes.
-/

namespace MarkdownTree

/-! ### Failing -/

/-- A failure with a message where failing is allowed, and otherwise what to do instead. -/
def Guided.failOr {α : Type} (mayFail : Bool) (message : String) (instead : Guided α) : Guided α :=
  if mayFail then throw message else instead

/-! ### Edits -/

/-- What a replacing puts in the place of a node. -/
inductive Edit (N : Type) where
  | keep
  | delete
  | copies (count : Nat)
  | replace (nodes : List N)
  | before (nodes : List N)
  | after (nodes : List N)
  | unwrap
  | wrap (name : String)
  | upper
  | levelAdd (amount : Int)
  | urlPrefix (head : String)
  | number
  | describe
  | fail (message : String)

namespace Edit

variable {N : Type} [Editable N]

open Editable (profile custom mapLiteral mapLevel mapUrl)

/-- The nodes that take the place of a node. A level wraps around at 256. -/
def run (mayFail : Bool) (node : N) : Edit N → Guided (List N)
  | .keep => pure [node]
  | .delete => pure []
  | .copies count => pure (List.replicate count node)
  | .replace nodes => pure nodes
  | .before nodes => pure (nodes ++ [node])
  | .after nodes => pure (node :: nodes)
  | .unwrap => pure (Editable.unwrap node)
  | .wrap name => pure [Editable.wrap name node]
  | .upper => pure [mapLiteral (·.map Char.toUpper) node]
  | .levelAdd amount => pure [mapLevel (fun level => UInt8.ofInt (level.toNat + amount)) node]
  | .urlPrefix head => pure [mapUrl (head ++ ·) node]
  | .number => do
    let k ← Guided.nextNumber
    pure [node, custom ("#" ++ toString k)]
  | .describe => pure [custom (profile node).describe]
  | .fail message => Guided.failOr mayFail message (pure [node])

/-- The function for a replacing: the first rule that applies decides, and without one the node is
kept. -/
def function (mayFail : Bool) (rules : List (Rule (Edit N))) (node : N) : Guided (List N) := do
  let edit ← Guided.consult rules (profile node)
  (edit.getD .keep).run mayFail node

omit [Editable N] in
def ofJson? (readNodes : Json → Option (List N)) : Json → Option (Edit N)
  | .string "keep" => some .keep
  | .string "delete" => some .delete
  | .string "unwrap" => some .unwrap
  | .string "upper" => some .upper
  | .string "number" => some .number
  | .string "describe" => some .describe
  | .object [("repeat", value)] => value.int?.map fun count => .copies count.toNat
  | .object [("replace", value)] => (readNodes value).map .replace
  | .object [("before", value)] => (readNodes value).map .before
  | .object [("after", value)] => (readNodes value).map .after
  | .object [("wrap", value)] => value.string?.map .wrap
  | .object [("level_add", value)] => value.int?.map .levelAdd
  | .object [("url_prefix", value)] => value.string?.map .urlPrefix
  | .object [("fail", value)] => value.string?.map .fail
  | _ => none

end Edit

/-! ### Emissions -/

/-- One thing to emit for a node: a fact about it, or a fixed text. -/
inductive Fact where
  | describe
  | call
  | literal
  | level
  | count
  | title
  | url
  | fixed (text : String)

def Fact.ofName : String → Fact
  | "describe" => .describe
  | "call" => .call
  | "literal" => .literal
  | "level" => .level
  | "count" => .count
  | "title" => .title
  | "url" => .url
  | text => .fixed text

/-- The value of a fact for a node seen in a given call, if the node has one. -/
def Fact.value? (p : Profile) (calls : Nat) : Fact → Option Json
  | .describe => some (.string p.describe)
  | .call => some (.int calls)
  | .literal => p.literal.map .string
  | .level => p.level.map fun level => .int level.toNat
  | .count => p.count.map fun count => .int count
  | .title => p.title.map .string
  | .url => p.url.map .string
  | .fixed text => some (.string text)

/-- What a collecting takes from a node. -/
inductive Emission where
  | emit (facts : List Fact)
  | fail (message : String)

namespace Emission

/-- The function for a collecting: the first rule that applies decides, and without one nothing is
taken. -/
def function {N : Type} [Editable N] (mayFail : Bool) (rules : List (Rule Emission)) (node : N) :
    Guided (List Json) := do
  let p := Editable.profile node
  let emission ← Guided.consult rules p
  let tally ← get
  match emission with
  | some (.emit facts) => pure (facts.filterMap (·.value? p tally.trace.size))
  | some (.fail message) => Guided.failOr mayFail message (pure [])
  | none => pure []

def ofJson? : Json → Option Emission
  | .object [("emit", value)] => (value.listOf? Json.string?).map fun names =>
    .emit (names.map Fact.ofName)
  | .object [("fail", value)] => value.string?.map .fail
  | _ => none

end Emission

/-! ### Verdicts -/

/-- What a filtering says of a node. -/
inductive Verdict where
  | keep
  | skip
  | fail (message : String)

namespace Verdict

/-- The predicate for a filtering: the first rule that applies decides, and without one the node is
rejected. -/
def function {N : Type} [Editable N] (mayFail : Bool) (rules : List (Rule Verdict)) (node : N) :
    Guided Bool := do
  let verdict ← Guided.consult rules (Editable.profile node)
  match verdict with
  | some .keep => pure true
  | some (.fail message) => Guided.failOr mayFail message (pure false)
  | some .skip | none => pure false

def ofJson? : Json → Option Verdict
  | .string "keep" => some .keep
  | .string "skip" => some .skip
  | .object [("fail", value)] => value.string?.map .fail
  | _ => none

end Verdict

end MarkdownTree
