import MarkdownTree.Json

/-!
Tokens of JSON texts: marks, and values that stand alone. The reader of tokens takes one character
at a time; it knows the tokens so far and what it is in the middle of.
-/

namespace MarkdownTree.Json

/-- A mark, or a value without parts. -/
inductive Token where
  | arrayStart
  | arrayEnd
  | objectStart
  | objectEnd
  | comma
  | colon
  | scalar (value : Json)

namespace Token

/-! ### Characters -/

def isBlank (c : Char) : Bool := c == ' ' || c == '\t' || c == '\n' || c == '\r'

/-- The token of a mark. -/
def ofMark? (c : Char) : Option Token :=
  match c with
  | '[' => some arrayStart
  | ']' => some arrayEnd
  | '\x7b' => some objectStart
  | '\x7d' => some objectEnd
  | ',' => some comma
  | ':' => some colon
  | _ => none

/-- Whether a character ends the word before it. -/
def isDelimiter (c : Char) : Bool := isBlank c || c == '"' || (ofMark? c).isSome

/-! ### Numbers and names -/

/-- One or more digits. -/
def isDigits (word : List Char) : Bool := !word.isEmpty && word.all Char.isDigit

/-- Digits of which the first is no zero, unless it is the only one. -/
def isWhole (word : List Char) : Bool := isDigits word && (word == ['0'] || word.head? != some '0')

/-- Nothing, or an exponent with or without a sign. -/
def isExponent : List Char → Bool
  | [] => true
  | e :: '+' :: digits | e :: '-' :: digits => (e == 'e' || e == 'E') && isDigits digits
  | e :: digits => (e == 'e' || e == 'E') && isDigits digits

/-- What may follow the digits of a whole number: a fraction, an exponent or both. -/
def isFraction : List Char → Bool
  | '.' :: rest =>
    isDigits (rest.takeWhile Char.isDigit) && isExponent (rest.dropWhile Char.isDigit)
  | rest => isExponent rest

/-- The number that decimal digits write. -/
def ofDigits (digits : List Char) : Nat :=
  digits.foldl (fun n c => 10 * n + (c.toNat - '0'.toNat)) 0

/-- A number. Minus zero is no integer. -/
def ofNumeral? (word : List Char) : Option Json :=
  let unsigned := if word.head? == some '-' then word.drop 1 else word
  let whole := unsigned.takeWhile Char.isDigit
  let rest := unsigned.dropWhile Char.isDigit
  if isWhole whole && isFraction rest then
    if rest.isEmpty && word != ['-', '0'] then
      let magnitude : Int := ofDigits whole
      some (Json.int (if unsigned == word then magnitude else -magnitude))
    else some (Json.decimal (String.ofList word))
  else none

/-- A name of a value, or a number. -/
def ofWord? (word : List Char) : Option Json :=
  match String.ofList word with
  | "null" => some .null
  | "true" => some (.bool true)
  | "false" => some (.bool false)
  | _ => ofNumeral? word

/-! ### Strings -/

/-- The character that a letter stands for after a backslash. -/
def ofEscape? (c : Char) : Option Char :=
  match c with
  | '"' | '\\' | '/' => some c
  | 'b' => some '\x08'
  | 'f' => some '\x0c'
  | 'n' => some '\n'
  | 'r' => some '\r'
  | 't' => some '\t'
  | _ => none

def hexDigit? (c : Char) : Option Nat :=
  if c.isDigit then some (c.toNat - '0'.toNat)
  else if 'a' ≤ c ∧ c ≤ 'f' then some (10 + (c.toNat - 'a'.toNat))
  else if 'A' ≤ c ∧ c ≤ 'F' then some (10 + (c.toNat - 'A'.toNat))
  else none

/-- The first half of a surrogate pair. -/
def isLeading (code : Nat) : Bool := 0xd800 ≤ code && code < 0xdc00

/-- The second half of a surrogate pair. -/
def isTrailing (code : Nat) : Bool := 0xdc00 ≤ code && code < 0xe000

/-- The characters of codes that come last first, before those in `after`. Two halves of a surrogate
pair make one character, and a half alone makes none. -/
def characters? (after : List Char) : List Nat → Option (List Char)
  | [] => some after
  | [code] =>
    if isLeading code || isTrailing code then none else some (Char.ofNat code :: after)
  | code :: before :: codes =>
    if isTrailing code && isLeading before then
      let joined := 0x10000 + 0x400 * (before - 0xd800) + (code - 0xdc00)
      characters? (Char.ofNat joined :: after) codes
    else if isLeading code || isTrailing code then none
    else characters? (Char.ofNat code :: after) (before :: codes)

/-! ### One character at a time -/

/-- What the reader is in the middle of, with the characters or codes of it so far, last first. -/
inductive Part where
  | between
  | word (chars : List Char)
  | string (codes : List Nat)
  /-- After a backslash. -/
  | escape (codes : List Nat)
  /-- Before the last `missing` digits of a code, those before them being worth `code`. -/
  | digits (codes : List Nat) (missing : Nat) (code : Nat)

/-- The tokens so far, last first, and what the reader is in the middle of. -/
structure Progress where
  tokens : List Token := []
  part : Part := .between

namespace Progress

/-- Adds a value, after which the reader is between tokens. -/
def put (p : Progress) (value : Json) : Progress := ⟨.scalar value :: p.tokens, .between⟩

/-- Takes a character between tokens. -/
def start (p : Progress) (c : Char) : Progress :=
  if isBlank c then p
  else if c == '"' then { p with part := .string [] }
  else match ofMark? c with
    | some token => { p with tokens := token :: p.tokens }
    | none => { p with part := .word [c] }

/-- Takes a character inside a string. -/
def inString (p : Progress) (codes : List Nat) (c : Char) : Option Progress :=
  if c == '"' then
    (characters? [] codes).map fun chars => p.put (.string (String.ofList chars))
  else if c == '\\' then some { p with part := .escape codes }
  else if c < ' ' then none
  else some { p with part := .string (c.toNat :: codes) }

/-- Takes the character after a backslash. -/
def inEscape (p : Progress) (codes : List Nat) (c : Char) : Option Progress :=
  if c == 'u' then some { p with part := .digits codes 4 0 }
  else (ofEscape? c).map fun c => { p with part := .string (c.toNat :: codes) }

/-- Takes a digit of a code. -/
def inDigits (p : Progress) (codes : List Nat) (missing code : Nat) (c : Char) :
    Option Progress :=
  (hexDigit? c).map fun digit =>
    let code := 16 * code + digit
    if missing = 1 then { p with part := .string (code :: codes) }
    else { p with part := .digits codes (missing - 1) code }

def step (p : Progress) (c : Char) : Option Progress :=
  match p.part with
  | .between => some (p.start c)
  | .word chars =>
    if isDelimiter c then (ofWord? chars.reverse).map fun value => (p.put value).start c
    else some { p with part := .word (c :: chars) }
  | .string codes => p.inString codes c
  | .escape codes => p.inEscape codes c
  | .digits codes missing code => p.inDigits codes missing code c

/-- The tokens in order, at the end of a text. -/
def finish (p : Progress) : Option (List Token) :=
  match p.part with
  | .between => some p.tokens.reverse
  | .word chars => (ofWord? chars.reverse).map fun value => (p.put value).tokens.reverse
  | .string _ | .escape _ | .digits .. => none

end Progress

/-- The tokens of a text. -/
def ofText? (text : String) : Option (List Token) :=
  (text.toList.foldlM Progress.step {}).bind Progress.finish

end Token

end MarkdownTree.Json
