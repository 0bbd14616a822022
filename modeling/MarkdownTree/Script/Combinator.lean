import MarkdownTree.Json
import MarkdownTree.Script.Profile
import MarkdownTree.Tree.Fold

/-!
Functions of an algebra described by data: what to put around the values of the children, what to
record of the node, and when to fail. The same description makes a text, a list of texts or a sum.
A ledger records each call of a described function.
-/

namespace MarkdownTree

open Json (required? optional?)

/-! ### Descriptions -/

/-- One thing to record of a node. A counter counts how often it was asked for. -/
inductive Datum where
  | counter
  | count
  | literal
  | language
  | level
  | listType
  | title
  | url
  | absent

namespace Datum

def ofName : String → Datum
  | "counter" => .counter
  | "count" => .count
  | "literal" => .literal
  | "language" => .language
  | "level" => .level
  | "list_type" => .listType
  | "title" => .title
  | "url" => .url
  | _ => .absent

/-- The text of a datum that the counter has no part in: a dash where the node has none. -/
def text (p : Profile) : Datum → String
  | .count => toString (p.count.getD 0)
  | .literal => p.literal.getD "-"
  | .language => p.language.getD "-"
  | .level => p.level.elim "-" fun level => toString level.toNat
  | .listType => p.listType.elim "-" ListType.name
  | .title => p.title.getD "-"
  | .url => p.url.getD "-"
  | .counter | .absent => "-"

end Datum

/-- The description of one function of an algebra. -/
structure Combinator where
  /-- The message to fail with. -/
  fail : Option String := none
  /-- The only literal to fail on; without one, every node. -/
  failLiteral : Option String := none
  data : List Datum := []
  /-- Whether the values of the children are used. -/
  useChildren : Bool := true
  opening : String := ""
  separator : String := ""
  closing : String := ""
  add : Int64 := 0
  /-- Whether a sum counts the characters of the literal. -/
  measure : Bool := false

def Combinator.ofJson? (value : Json) : Option Combinator := do
  let members ← value.members?
  let text (name : String) := (optional? Json.string? name members).map (·.getD "")
  let flag (name : String) (absent : Bool) := (optional? Json.bool? name members).map (·.getD absent)
  let fail ← optional? Json.string? "fail" members
  let failLiteral ← optional? Json.string? "fail_literal" members
  let data ← optional? (·.listOf? Json.string?) "data" members
  let useChildren ← flag "children" true
  let opening ← text "open"
  let separator ← text "sep"
  let closing ← text "close"
  let add ← optional? Json.int64? "add" members
  let measure ← flag "len" false
  some {
    fail, failLiteral, useChildren, opening, separator, closing, measure
    data := (data.getD []).map Datum.ofName
    add := add.getD 0
  }

/-! ### Values -/

/-- Values that a described function can make: from its description, the data recorded of the node,
the length of the node's literal, and the values of the children. -/
class Composable (R : Type) extends Gather R where
  compose : Combinator → String → Nat → List R → R
  toJson : R → Json
  ofJson? : Json → Option R

instance : Composable String where
  compose c data _ children := c.opening ++ data ++ c.separator.intercalate children ++ c.closing
  toJson := .string
  ofJson? := Json.string?

instance : Composable (List String) where
  compose c data _ children :=
    let own := c.opening ++ data ++ c.closing
    Gather.concat children ++ (if own == "" then [] else [own])
  toJson := Json.ofTexts
  ofJson? := (·.listOf? Json.string?)

instance : Composable Int64 where
  compose c _ length children :=
    Gather.concat children + c.add + (if c.measure then Int64.ofNat length else 0)
  toJson value := .int value.toInt
  ofJson? := Json.int64?

/-! ### Calls -/

/-- The counter, and the calls of described functions in order. -/
structure Ledger where
  counter : Nat := 0
  calls : Array String := #[]

/-- A step of a fold with described functions. It may fail, and the ledger survives that. -/
abbrev Recorded := ExceptT String (StateM Ledger)

/-- The text of a datum; asking for the counter adds one to it first. -/
def Datum.record (p : Profile) : Datum → Recorded String
  | .counter => do
    modify fun ledger => { ledger with counter := ledger.counter + 1 }
    let ledger ← get
    pure (toString ledger.counter)
  | datum => pure (datum.text p)

/-- The name of a call: that of the function, and the number of children for a kind with children. -/
def Profile.callName (p : Profile) : String :=
  p.kind ++ (p.count.elim "" fun count => "/" ++ toString count)

namespace Combinator

variable {R : Type}

/-- The message to fail with at a node, if failing is allowed and the description asks for it. -/
def failure? (c : Combinator) (mayFail : Bool) (p : Profile) : Option String :=
  if mayFail && (c.failLiteral.isNone || c.failLiteral == p.literal) then c.fail else none

variable [Composable R]

/-- Calls a described function: the call is recorded, then it may fail, then the data are recorded,
and last the value is made. -/
def run (c : Combinator) (mayFail : Bool) (p : Profile) (children : List R) : Recorded R := do
  modify fun ledger => { ledger with calls := ledger.calls.push p.callName }
  match c.failure? mayFail p with
  | some message => throw message
  | none =>
    let data ← c.data.mapM (·.record p)
    let children := if c.useChildren then children else []
    pure (Composable.compose c ("|".intercalate data) (p.literal.getD "").length children)

/-- Sets the function of a block kind, a list item or the document. -/
def setBlock (mayFail : Bool) (A : Algebra Recorded R) (name : String) (c : Combinator) :
    Algebra Recorded R :=
  let marker : Recorded R := c.run mayFail { kind := name } []
  let literal : String → Recorded R := fun literal => c.run mayFail { kind := name, literal } []
  let code : String → Option String → Recorded R := fun literal language =>
    c.run mayFail { kind := name, literal, language } []
  let children : List R → Recorded R := fun children =>
    c.run mayFail { kind := name, count := children.length } children
  let heading : List R → UInt8 → Recorded R := fun children level =>
    c.run mayFail { kind := name, count := children.length, level } children
  let list : List R → ListType → Recorded R := fun items listType =>
    c.run mayFail { kind := name, count := items.length, listType } items
  match name with
  | "list" => { A with list := some list }
  | "list_item" => { A with listItem := some children }
  | "block_quote" => { A with quote := some children }
  | "code_block" => { A with codeBlock := some code }
  | "html" => { A with html := some literal }
  | "paragraph" => { A with paragraph := some children }
  | "heading" => { A with heading := some heading }
  | "custom" => { A with custom := some literal }
  | "thematic_break" => { A with thematicBreak := some marker }
  | "document" => { A with document := some children }
  | _ => A

/-- Sets the function of an inline kind. -/
def setInline (mayFail : Bool) (A : InlineAlgebra Recorded R) (name : String) (c : Combinator) :
    InlineAlgebra Recorded R :=
  let kind := "inline." ++ name
  let marker : Recorded R := c.run mayFail { kind } []
  let literal : String → Recorded R := fun literal => c.run mayFail { kind, literal } []
  let children : List R → Recorded R := fun children =>
    c.run mayFail { kind, count := children.length } children
  let linked : List R → Target → Recorded R := fun children target =>
    c.run mayFail { kind, count := children.length, target } children
  match name with
  | "text" => { A with text := some literal }
  | "soft_break" => { A with softBreak := some marker }
  | "line_break" => { A with lineBreak := some marker }
  | "code" => { A with code := some literal }
  | "html" => { A with html := some literal }
  | "custom" => { A with custom := some literal }
  | "emphasis" => { A with emphasis := some children }
  | "strong" => { A with strong := some children }
  | "link" => { A with link := some linked }
  | "image" => { A with image := some linked }
  | _ => A

end Combinator

/-! ### Scripts -/

/-- A step of a script: functions to set, a default value to set, or a document to fold, which is
that of the session where the step names none. -/
inductive FoldStep (R : Type) where
  | set (blocks inlines : List (String × Combinator))
  | setDefault (value : R)
  | reduce (doc : Option Document)

/-- The result of folding one document, with the calls made. -/
structure FoldResult (R : Type) where
  outcome : Except String R
  calls : List String

namespace FoldStep

variable {R : Type} [Composable R]

/-- Runs steps in order on one algebra and one counter, and gives a result for each fold. There is
none if a fold names no document and the session has none. -/
def runAll (mayFail : Bool) (session : Option Document) :
    Algebra Recorded R → Nat → List (FoldStep R) → Option (List (FoldResult R))
  | _, _, [] => some []
  | A, counter, .set blocks inlines :: steps =>
    let A := blocks.foldl (fun A (name, c) => c.setBlock mayFail A name) A
    let inline := inlines.foldl (fun A (name, c) => c.setInline mayFail A name) A.inline
    runAll mayFail session { A with inline } counter steps
  | A, counter, .setDefault value :: steps =>
    runAll mayFail session { A with defaultValue := value } counter steps
  | A, counter, .reduce doc? :: steps => do
    let doc ← doc? <|> session
    let (outcome, ledger) := (doc.fold A).run.run { counter }
    let results ← runAll mayFail session A ledger.counter steps
    some (⟨outcome, ledger.calls.toList⟩ :: results)

/-- Named combinators, from an object. -/
def combinatorsOfJson? (value : Json) : Option (List (String × Combinator)) := do
  let members ← value.members?
  members.mapM fun (name, value) => (Combinator.ofJson? value).map (name, ·)

/-- A step from an object, with a reader for documents. -/
def ofJson? (readDocument : Json → Option Document) (value : Json) : Option (FoldStep R) := do
  let members ← value.members?
  match members.lookup "set", members.lookup "default" with
  | some changes, _ =>
    let changes ← changes.members?
    let blocks ← optional? combinatorsOfJson? "block" changes
    let inlines ← optional? combinatorsOfJson? "inline" changes
    some (.set (blocks.getD []) (inlines.getD []))
  | none, some value => (Composable.ofJson? value).map .setDefault
  | none, none => (optional? readDocument "reduce" members).map .reduce

end FoldStep

end MarkdownTree
