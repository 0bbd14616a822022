import MarkdownTree.Json.Text
import MarkdownTree.Mdast.Json
import MarkdownTree.Reading.Reader
import MarkdownTree.Script.Action
import MarkdownTree.Script.Combinator
import MarkdownTree.Tree.Collect
import MarkdownTree.Tree.Json
import MarkdownTree.Tree.Replace

/-!
Requests: an object names an operation and gives its arguments, and the answer is an object too. A
session is a list of requests that share a document: a request that names none works on that of the
session, and one that makes a document makes it the session's.
-/

namespace MarkdownTree

open Json (required? optional?)
open Mdast (Node)

/-! ### Answers -/

/-- The answer to a request, with the document that it made if it made one. -/
structure Answer where
  json : Json
  doc : Option Document := none

namespace Answer

/-- The answer to a request with an argument that is not what it should be. -/
def malformed : Answer := ⟨.object [("error", .string "decode")], none⟩

/-- The answer to what is no request. -/
def unknown : Answer := ⟨.object [("error", .string "bad_request")], none⟩

end Answer

/-- The members of a request. -/
abbrev Arguments := List (String × Json)

/-- Whether a failing rule or function ends the operation. -/
def mayFail (args : Arguments) : Bool := (required? Json.bool? "try" args).getD false

/-- The document of a request, or that of the session for a request without. -/
def document? (session : Option Document) (args : Arguments) : Option Document := do
  let own ← optional? Document.ofJson? "doc" args
  own <|> session

/-! ### Trees -/

/-- Reads a value as a tree of the named type and writes it again. -/
def reencoded? (type : Option String) (value : Json) : Option Json :=
  match type with
  | some "block" => (Block.ofJson? value).map Block.toJson
  | some "inline" => (Inline.ofJson? value).map Inline.toJson
  | some "inlines" => (Inline.listOfJson? value).map fun xs => .array (Inline.toJsonAll xs)
  | some "list_type" => (ListType.ofJson? value).map ListType.toJson
  | _ => (Document.ofJson? value).map Document.toJson

def decodeAnswer (args : Arguments) : Option Answer := do
  let type ← optional? Json.string? "type" args
  let value ← required? (reencoded? type) "value" args
  some { json := .object [("value", value)] }

/-- The node that a constructor makes of its arguments. -/
def constructed? (args : Arguments) : Option Json := do
  let name ← required? Json.string? "fn" args
  match name with
  | "paragraph" =>
    (required? Inline.listOfJson? "text" args).map fun text => (Block.paragraph text).toJson
  | "heading" => do
    let level ← required? Json.byte? "level" args
    let text ← required? Inline.listOfJson? "text" args
    some (Block.heading level text).toJson
  | "link" => do
    let children ← required? Inline.listOfJson? "children" args
    let url ← required? Json.string? "url" args
    some (Inline.link children url).toJson
  | "image" => do
    let children ← required? Inline.listOfJson? "children" args
    let url ← required? Json.string? "url" args
    some (Inline.image children url).toJson
  | "inline_from_str" | "inline_from_string" =>
    (required? Json.string? "value" args).map fun text => (Inline.text text).toJson
  | "block_from_list" => (required? Block.ofList? "value" args).map Block.toJson
  | "block_from_block_quote" => (required? Block.ofQuote? "value" args).map Block.toJson
  | "block_from_paragraph" => (required? Block.ofParagraph? "value" args).map Block.toJson
  | "block_from_heading" => (required? Block.ofHeading? "value" args).map Block.toJson
  | "block_from_code_block" =>
    (required? LeafBlock.ofCodeBlock? "value" args).map LeafBlock.toJson
  | _ => none

def constructAnswer (args : Arguments) : Option Answer := do
  let calls ← required? (·.listOf? some) "calls" args
  let values := calls.map fun call =>
    ((call.members?.bind constructed?).getD Answer.malformed.json)
  some { json := .object [("values", .array values)] }

def equalAnswer (args : Arguments) : Option Answer := do
  let a ← required? Document.ofJson? "a" args
  let b ← required? Document.ofJson? "b" args
  let each := List.zipWith (fun x y => Json.bool (x == y)) a b
  some { json := .object [("equal", .bool (a == b)), ("each", .array each)] }

/-! ### Readings -/

def Severity.name : Severity → String
  | .debug => "DEBUG"
  | .warn => "WARN"

def Event.toJson (e : Event) : Json := Json.ofTexts [e.severity.name, e.text]

/-- The answer to a reading, its log included in any case. -/
def readingAnswer (reading : Reading Document) : Answer :=
  let logs := ("logs", Json.array (reading.run.log.map Event.toJson))
  match reading.run.value with
  | .ok doc => ⟨.object [("blocks", doc.toJson), logs], some doc⟩
  | .error e => ⟨.object [("error", .string e.kind), ("message", .string e.message), logs], none⟩

def readAnswer (args : Arguments) : Option Answer := do
  let keep ← optional? Json.bool? "allow_unknown_markdown" args
  let node ← required? Node.ofJson? "ast" args
  some (readingAnswer (readNode (keep.getD false) node))

/-- What the text parser made of a text: a syntax tree, or a reason for refusing it. -/
def parsedOfJson? (value : Json) : Option (Except String Node) := do
  let members ← value.members?
  match ← optional? Json.string? "error" members with
  | some reason => some (.error reason)
  | none => (required? Node.ofJson? "node" members).map .ok

/-- Whether the options of a parsing keep unsupported nodes: as they say, or else as their preset
does. -/
def keepOfOptions? (value : Json) : Option Bool := do
  let members ← value.members?
  let preset ← optional? Json.string? "preset" members
  let keep ← optional? Json.bool? "allow_unknown_markdown" members
  some (keep.getD (preset == some "gfm"))

def parseAnswer (args : Arguments) : Option Answer := do
  let keep ← optional? keepOfOptions? "options" args
  let parsed ← required? parsedOfJson? "ast" args
  some (readingAnswer (readParsed (keep.getD false) parsed))

/-! ### Walks -/

/-- A walk guided by the rules of a request, over something read from it. -/
def guided? {T Action F α : Type} (subject? : Arguments → Option T)
    (readAction : Json → Option Action) (function : Bool → List (Rule Action) → F)
    (walk : F → T → Guided α) (args : Arguments) : Option (Guided α) := do
  let subject ← subject? args
  let rules ← required? (·.listOf? (Rule.ofJson? readAction)) "rules" args
  some (walk (function (mayFail args) rules) subject)

/-- The answer to a guided walk, its trace included in any case. -/
def walkAnswer {α : Type} (name : String) (toJson : α → Json) (walk : Guided α) : Json × Option α :=
  let (outcome, tally) := walk.run.run {}
  let trace := ("trace", Json.ofTexts tally.trace.toList)
  match outcome with
  | .ok value => (.object [(name, toJson value), trace], some value)
  | .error message =>
    (.object [("error", .string "aborted"), ("message", .string message), trace], none)

/-- The answer to a walk that makes a document. -/
def documentAnswer (walk : Guided Document) : Answer :=
  let (json, doc) := walkAnswer "blocks" Document.toJson walk
  { json, doc }

/-- The answer to a walk that makes something else. -/
def valueAnswer {α : Type} (name : String) (toJson : α → Json) (walk : Guided α) : Answer :=
  { json := (walkAnswer name toJson walk).1 }

def inlinesToJson (xs : List Inline) : Json := .array (Inline.toJsonAll xs)

section Walks

variable (session : Option Document) (args : Arguments)

def replaceBlocksAnswer : Option Answer :=
  (guided? (document? session) (Edit.ofJson? Block.listOfJson?) Edit.function
    Document.replaceBlocks args).map documentAnswer

def replaceInlinesAnswer : Option Answer :=
  (guided? (document? session) (Edit.ofJson? Inline.listOfJson?) Edit.function
    Document.replaceInlines args).map documentAnswer

def replaceInlineAnswer : Option Answer :=
  (guided? (required? Inline.ofJson? "inline") (Edit.ofJson? Inline.listOfJson?) Edit.function
    Inline.replace args).map (valueAnswer "inlines" inlinesToJson)

def collectBlocksAnswer : Option Answer :=
  (guided? (document? session) Emission.ofJson? Emission.function
    Document.collectBlocks args).map (valueAnswer "values" .array)

def collectInlinesAnswer : Option Answer :=
  (guided? (document? session) Emission.ofJson? Emission.function
    Document.collectInlines args).map (valueAnswer "values" .array)

def filterBlocksAnswer : Option Answer :=
  (guided? (document? session) Verdict.ofJson? Verdict.function
    Document.filterBlocks args).map (valueAnswer "matches" Document.toJson)

def filterInlinesAnswer : Option Answer :=
  (guided? (document? session) Verdict.ofJson? Verdict.function
    Document.filterInlines args).map (valueAnswer "matches" inlinesToJson)

end Walks

/-! ### Folds -/

def FoldResult.toJson {R : Type} [Composable R] (result : FoldResult R) : Json :=
  let calls := ("calls", Json.ofTexts result.calls)
  match result.outcome with
  | .ok value => .object [("value", Composable.toJson value), calls]
  | .error message =>
    .object [("error", .string "aborted"), ("message", .string message), calls]

/-- The algebra that a request starts from. -/
def startAlgebra? (R : Type) [Composable R] (args : Arguments) : Option (Algebra Recorded R) := do
  let base ← optional? Json.string? "base" args
  if base == some "collecting" then some .collecting
  else
    let value ← optional? Composable.ofJson? "default" args
    some { defaultValue := value.getD Gather.empty }

def foldAnswer (R : Type) [Composable R] (session : Option Document) (args : Arguments) :
    Option Answer := do
  let A ← startAlgebra? R args
  let steps ← required? (·.listOf? (FoldStep.ofJson? Document.ofJson?)) "steps" args
  let results ← FoldStep.runAll (mayFail args) session A 0 steps
  some { json := .object [("results", .array (results.map FoldResult.toJson))] }

def gatherAnswer (R : Type) [Composable R] (args : Arguments) : Option Answer := do
  let values : List R ← required? (·.listOf? Composable.ofJson?) "values" args
  let write : R → Json := Composable.toJson
  some { json := .object [("empty", write Gather.empty), ("concat", write (Gather.concat values)),
    ("left", write (Gather.concat values)), ("right", write (Gather.concatRight values))] }

/-- An answer over the values of the type that the request names. -/
def byResult (answer : (R : Type) → [Composable R] → Arguments → Option Answer)
    (args : Arguments) : Option Answer := do
  let result ← required? Json.string? "result" args
  match result with
  | "string" => answer String args
  | "list" => answer (List String) args
  | "sum" => answer Int64 args
  | _ => none

/-! ### Requests and sessions -/

/-- The operation of a given name, on the document of the session where it needs one. -/
def operation? (session : Option Document) : String → Option (Arguments → Option Answer)
  | "decode" => some decodeAnswer
  | "construct" => some constructAnswer
  | "equal" => some equalAnswer
  | "read" => some readAnswer
  | "parse" => some parseAnswer
  | "apply_blocks" => some (replaceBlocksAnswer session)
  | "apply_inlines" => some (replaceInlinesAnswer session)
  | "apply_inline" => some replaceInlineAnswer
  | "collect_blocks" => some (collectBlocksAnswer session)
  | "collect_inlines" => some (collectInlinesAnswer session)
  | "filter_blocks" => some (filterBlocksAnswer session)
  | "filter_inlines" => some (filterInlinesAnswer session)
  | "algebra" => some (byResult fun R _ => foldAnswer R session)
  | "monoid" => some (byResult gatherAnswer)
  | _ => none

/-- The answer to a request that is no session. -/
def plainAnswer (session : Option Document) (args : Arguments) : Answer :=
  match (required? Json.string? "op" args).bind (operation? session) with
  | none => .unknown
  | some operation => (operation args).getD .malformed

/-- The answer to a session, from those to its steps and the document after them. It makes no
document for a session around it. -/
def sessionAnswer (steps : List Json × Document) : Answer :=
  { json := .object [("steps", .array steps.1), ("doc", steps.2.toJson)] }

mutual

/-- The answer to a request, which may be a step of a session. -/
def answer (session : Option Document) : Json → Answer
  | .object args =>
    if required? Json.string? "op" args = some "session" then
      match document? session args with
      | some doc => (answerSteps? doc args).elim .malformed sessionAnswer
      | none => .malformed
    else plainAnswer session args
  | _ => .unknown

/-- The answers to the requests that a session has as its `steps`. -/
def answerSteps? (doc : Document) : Arguments → Option (List Json × Document)
  | [] => none
  | (key, value) :: args =>
    if key = "steps" then answerArray? doc value else answerSteps? doc args

def answerArray? (doc : Document) : Json → Option (List Json × Document)
  | .array requests => some (answerAll doc requests)
  | _ => none

/-- The answers to requests in order, each on the document that the ones before it left, and the
document that the last one left. -/
def answerAll (doc : Document) : List Json → List Json × Document
  | [] => ([], doc)
  | request :: requests =>
    let first := answer (some doc) request
    let (rest, last) := answerAll (first.doc.getD doc) requests
    (first.json :: rest, last)

end

/-- The answer to a line, as a line. -/
def respond (line : String) : String :=
  ((Json.parse? line).elim Answer.unknown (answer none)).json.render

end MarkdownTree
