import MarkdownTree.Json.Token

/-!
JSON texts: reading a value from its text, and writing it. Tokens are read with a stack of the
arrays and objects that are not closed yet. Of several members of one name an object keeps the last.
-/

namespace MarkdownTree.Json

/-! ### Reading -/

/-- An array or object that is not closed yet, what it holds so far last first. -/
inductive Frame where
  | array (elements : List Json)
  | object (members : List (String × Json))
  /-- An object with a key that waits for its value. -/
  | member (members : List (String × Json)) (key : String)

/-- What may come next. -/
inductive Place where
  /-- A value. -/
  | value
  /-- A key. -/
  | key
  /-- The colon after a key. -/
  | colon
  /-- The first element or member, or the end of the frame. -/
  | first
  /-- A comma, or the end of the frame. -/
  | next

/-- What may come next, and the frames, innermost first. A text is read as the only element of an
outermost array. -/
structure Parsing where
  place : Place := .value
  frames : List Frame := [.array []]

namespace Parsing

/-- Puts a value into the innermost frame. -/
def put? (value : Json) : List Frame → Option Parsing
  | .array elements :: frames => some ⟨.next, .array (value :: elements) :: frames⟩
  | .member members key :: frames =>
    some ⟨.next, .object ((key, value) :: members.filter (·.1 != key)) :: frames⟩
  | _ => none

/-- Takes the start of a value that has parts, or all of one that has none. -/
def takeValue? (frames : List Frame) : Token → Option Parsing
  | .scalar value => put? value frames
  | .arrayStart => some ⟨.first, .array [] :: frames⟩
  | .objectStart => some ⟨.first, .object [] :: frames⟩
  | _ => none

/-- Takes a key, for the innermost object. -/
def takeKey? : List Frame → Token → Option Parsing
  | .object members :: frames, .scalar (.string key) => some ⟨.colon, .member members key :: frames⟩
  | _, _ => none

/-- Takes the end of the innermost frame. -/
def close? : List Frame → Token → Option Parsing
  | .array elements :: frames, .arrayEnd => put? (.array elements.reverse) frames
  | .object members :: frames, .objectEnd => put? (.object members.reverse) frames
  | _, _ => none

def step (p : Parsing) (token : Token) : Option Parsing :=
  match p.place, p.frames with
  | .value, frames => takeValue? frames token
  | .key, frames => takeKey? frames token
  | .colon, frames => if token matches .colon then some ⟨.value, frames⟩ else none
  | .first, .array elements :: frames =>
    close? (.array elements :: frames) token <|> takeValue? (.array elements :: frames) token
  | .first, frames => close? frames token <|> takeKey? frames token
  | .next, .array elements :: frames =>
    if token matches .comma then some ⟨.value, .array elements :: frames⟩
    else close? (.array elements :: frames) token
  | .next, frames => if token matches .comma then some ⟨.key, frames⟩ else close? frames token

/-- The value of a text whose tokens were all taken. -/
def finish : Parsing → Option Json
  | ⟨.next, [.array [value]]⟩ => some value
  | _ => none

end Parsing

/-- The value that a text writes. -/
def parse? (text : String) : Option Json := do
  let tokens ← Token.ofText? text
  let parsing ← tokens.foldlM Parsing.step {}
  parsing.finish

/-! ### Writing -/

/-- Adds a character of a string, by an escape where the character itself may not stand. -/
def pushEscaped (out : String) (c : Char) : String :=
  match c with
  | '"' => out ++ "\\\""
  | '\\' => out ++ "\\\\"
  | c =>
    if c < ' ' then
      ((out ++ "\\u00").push (Nat.digitChar (c.toNat / 16))).push (Nat.digitChar (c.toNat % 16))
    else out.push c

/-- Adds a string between quotes. -/
def pushString (out text : String) : String :=
  (text.toList.foldl pushEscaped (out.push '"')).push '"'

mutual

/-- Adds the text of a value. -/
def push (out : String) : Json → String
  | .null => out ++ "null"
  | .bool true => out ++ "true"
  | .bool false => out ++ "false"
  | .int value => out ++ toString value
  | .decimal spelling => out ++ spelling
  | .string text => pushString out text
  | .array elements => (pushElements (out.push '[') "" elements).push ']'
  | .object members => (pushMembers (out.push '\x7b') "" members).push '\x7d'

/-- Adds the texts of values, the first after `before` and the others after commas. -/
def pushElements (out before : String) : List Json → String
  | [] => out
  | value :: values => pushElements (push (out ++ before) value) "," values

/-- Adds the texts of members, the first after `before` and the others after commas. -/
def pushMembers (out before : String) : List (String × Json) → String
  | [] => out
  | (key, value) :: members =>
    pushMembers (push ((pushString (out ++ before) key).push ':') value) "," members

end

/-- The text of a value, on one line. -/
def render (value : Json) : String := push "" value

end MarkdownTree.Json
