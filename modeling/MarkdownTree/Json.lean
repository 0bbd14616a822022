/-!
JSON values. Integers are kept apart from numbers written with a fraction or an exponent, because a
field that wants an integer takes no other number, whatever its value.
-/

namespace MarkdownTree

/-- A JSON value. A `decimal` is a number that is not written as an integer, as it is written. -/
inductive Json where
  | null
  | bool (value : Bool)
  | int (value : Int)
  | decimal (spelling : String)
  | string (value : String)
  | array (elements : List Json)
  | object (members : List (String × Json))

namespace Json

instance : Inhabited Json := ⟨null⟩

/-! ### Scalars -/

def string? : Json → Option String
  | .string value => some value
  | _ => none

def bool? : Json → Option Bool
  | .bool value => some value
  | _ => none

def int? : Json → Option Int
  | .int value => some value
  | _ => none

/-- An integer from `0` up to `bound - 1`. -/
def natBelow? (bound : Nat) : Json → Option Nat
  | .int (.ofNat n) => if n < bound then some n else none
  | _ => none

/-- An integer from `0` to `255`. -/
def byte? (value : Json) : Option UInt8 := (value.natBelow? UInt8.size).map UInt8.ofNat

/-- An integer of 64 bits, its sign included. -/
def int64? : Json → Option Int64
  | .int n =>
    if Int64.minValue.toInt ≤ n ∧ n ≤ Int64.maxValue.toInt then some (Int64.ofInt n) else none
  | _ => none

/-- `null` for nothing, or a value that `read` takes. -/
def nullable? {α : Type} (read : Json → Option α) : Json → Option (Option α)
  | .null => some none
  | value => (read value).map some

/-! ### Arrays and objects -/

/-- An array whose elements `read` takes one by one. -/
def listOf? {α : Type} (read : Json → Option α) : Json → Option (List α)
  | .array elements => elements.mapM read
  | _ => none

def members? : Json → Option (List (String × Json))
  | .object members => some members
  | _ => none

/-- The member that must be there, read by `read`. -/
def required? {α : Type} (read : Json → Option α) (name : String)
    (members : List (String × Json)) : Option α :=
  (members.lookup name).bind read

/-- The member that may be absent or `null`, read by `read` if it is neither. -/
def optional? {α : Type} (read : Json → Option α) (name : String)
    (members : List (String × Json)) : Option (Option α) :=
  match members.lookup name with
  | none => some none
  | some value => value.nullable? read

/-! ### Writing -/

/-- A text, or `null` for none. -/
def textOrNull : Option String → Json
  | some text => .string text
  | none => .null

/-- An array of texts. -/
def ofTexts (texts : List String) : Json := .array (texts.map .string)

end Json

end MarkdownTree
