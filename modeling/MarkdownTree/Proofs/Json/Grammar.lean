import Mathlib.Data.List.Forall2
import MarkdownTree.Json

/-!
What a JSON value spells. A kind of node is a name, alone or with a payload under it, and a record is an
object or an array of its fields. The grammars here say so without saying how a value is read; reading
agrees with them where no object has two members of one name.
-/

namespace MarkdownTree.Json

/-! ### Distinct keys -/

mutual

/-- No object in a value, at any depth, has two members of one name. -/
def DistinctKeys : Json → Prop
  | .null | .bool _ | .int _ | .decimal _ | .string _ => True
  | .array elements => DistinctKeysAll elements
  | .object members => (members.map Prod.fst).Nodup ∧ DistinctKeysIn members

/-- The same of all elements of an array. -/
def DistinctKeysAll : List Json → Prop
  | [] => True
  | value :: values => value.DistinctKeys ∧ DistinctKeysAll values

/-- The same of the values of all members of an object. -/
def DistinctKeysIn : List (String × Json) → Prop
  | [] => True
  | (_, value) :: members => value.DistinctKeys ∧ DistinctKeysIn members

end

theorem DistinctKeysIn.value {members : List (String × Json)} {name : String} {value : Json}
    (h : DistinctKeysIn members) (hmem : (name, value) ∈ members) : value.DistinctKeys := by
  induction members with
  | nil => cases hmem
  | cons member members ih =>
    obtain ⟨key, other⟩ := member
    obtain ⟨hother, hrest⟩ := h
    rcases List.mem_cons.mp hmem with heq | hmem
    · obtain ⟨-, rfl⟩ := Prod.mk.inj heq
      exact hother
    · exact ih hrest hmem

@[simp] theorem distinctKeys_textOrNull (text : Option String) : (textOrNull text).DistinctKeys := by
  cases text <;> trivial

section Lookup

variable {members : List (String × Json)} {name : String} {value : Json}

theorem mem_of_lookup (h : members.lookup name = some value) : (name, value) ∈ members := by
  obtain ⟨before, after, rfl, -⟩ := List.lookup_eq_some_iff.mp h
  exact List.mem_append_right _ List.mem_cons_self

theorem lookup_of_mem (hkeys : (members.map Prod.fst).Nodup) (h : (name, value) ∈ members) :
    members.lookup name = some value := by
  induction members with
  | nil => cases h
  | cons member members ih =>
    obtain ⟨hfirst, hrest⟩ := List.nodup_cons.mp hkeys
    rcases List.mem_cons.mp h with rfl | h
    · exact List.lookup_cons_self
    · have hne : name ≠ member.1 := by
        rintro rfl
        exact hfirst (List.mem_map.mpr ⟨_, h, rfl⟩)
      rw [List.lookup_cons, beq_false_of_ne hne]
      exact ih hrest h

theorem lookup_eq_none_iff_forall : members.lookup name = none ↔ ∀ value, (name, value) ∉ members := by
  rw [List.lookup_eq_none_iff]
  constructor
  · intro h value hmem
    simpa using h _ hmem
  · rintro h ⟨key, value⟩ hmem
    rw [bne_iff_ne]
    rintro rfl
    exact h value hmem

end Lookup

/-! ### Grammars -/

/-- A kind without data: its name, alone or with nothing under it. -/
def Bare (name : String) (value : Json) : Prop :=
  value = .string name ∨ value = .object [(name, .null)]

/-- A kind with data: an object with one member, which has the name of the kind and spells the data. -/
def Tagged (name : String) (Payload : Json → Prop) (value : Json) : Prop :=
  ∃ payload, value = .object [(name, payload)] ∧ Payload payload

/-- A string. -/
def Literal (text : String) (value : Json) : Prop := value = .string text

/-- An integer from `0` to `255`, the number of a byte. -/
def Byte (byte : UInt8) (value : Json) : Prop := value = .int byte.toNat

/-- A text, or `null` for none. -/
def NullableText : Option String → Json → Prop
  | none, value => value = .null
  | some text, value => value = .string text

/-- An array whose elements are as they should be. -/
def ArrayOf (Elements : List Json → Prop) (value : Json) : Prop :=
  ∃ elements, value = .array elements ∧ Elements elements

/-- A field of a record: its name, whether an object may leave it out, and what spells its value. -/
structure Field where
  name : String
  Omissible : Prop
  Spelled : Json → Prop

namespace Field

/-- A field that no object may leave out. -/
def required (name : String) (Spelled : Json → Prop) : Field := ⟨name, False, Spelled⟩

/-- A field with a text or `null`; an object may leave it out if it has no text. -/
def nullable (name : String) (text : Option String) : Field := ⟨name, text = none, NullableText text⟩

/-- The members of an object spell a field, or leave it out. -/
def In (field : Field) (members : List (String × Json)) : Prop :=
  (∃ value, (field.name, value) ∈ members ∧ field.Spelled value) ∨
    (field.Omissible ∧ ∀ value, (field.name, value) ∉ members)

end Field

theorem in_required_of_mem {name : String} {Spelled : Json → Prop} {members : List (String × Json)}
    {value : Json} (h : Spelled value) (hmem : (name, value) ∈ members) :
    (Field.required name Spelled).In members :=
  .inl ⟨value, hmem, h⟩

theorem in_nullable_of_mem {name : String} {text : Option String} {members : List (String × Json)}
    (hmem : (name, textOrNull text) ∈ members) : (Field.nullable name text).In members := by
  have hspelled : NullableText text (textOrNull text) := by cases text <;> rfl
  exact .inl ⟨_, hmem, hspelled⟩

/-- What is spelled among some members is spelled among more. -/
theorem Field.In.cons {name : String} {Spelled : Json → Prop} {member : String × Json}
    {members : List (String × Json)} (h : (Field.required name Spelled).In members) :
    (Field.required name Spelled).In (member :: members) := by
  rcases h with ⟨value, hmem, hspelled⟩ | ⟨homit, -⟩
  · exact .inl ⟨value, List.mem_cons_of_mem _ hmem, hspelled⟩
  · exact homit.elim

/-- A record: an object with all of its fields, whatever other members it has, or an array of the fields in
order and of nothing else. -/
def RecordOf (fields : List Field) : Json → Prop
  | .object members => ∀ field ∈ fields, field.In members
  | .array elements => List.Forall₂ Field.Spelled fields elements
  | .null | .bool _ | .int _ | .decimal _ | .string _ => False

/-! ### Reading agrees with the grammars -/

/-- Every value with distinct keys that is spelled so is read as `a`. -/
def Takes {α : Type} (read : Json → Option α) (Spelled : Json → Prop) (a : α) : Prop :=
  ∀ value : Json, value.DistinctKeys → Spelled value → read value = some a

section Fields

variable {α : Type} {read : Json → Option α} {a : α} {name : String} {Spelled : Json → Prop}
  {members : List (String × Json)} {text : Option String} {value : Json}

theorem string?_eq_some {text : String} : value.string? = some text ↔ Literal text value := by
  cases value <;> simp [string?, Literal]

theorem byte?_eq_some {level : UInt8} : value.byte? = some level ↔ Byte level value := by
  constructor
  · intro h
    obtain ⟨n, hn, rfl⟩ := Option.map_eq_some_iff.mp h
    cases value with
    | int i =>
      cases i with
      | ofNat k =>
        rw [natBelow?] at hn
        split at hn
        · rename_i hk
          cases hn
          rw [Byte, UInt8.toNat_ofNat_of_lt' hk]
          rfl
        · cases hn
      | negSucc k => cases hn
    | null | bool | decimal | string | array | object => cases hn
  · rintro rfl
    have hbelow : (Json.int level.toNat).natBelow? UInt8.size = some level.toNat :=
      if_pos level.toNat_lt
    rw [byte?, hbelow, Option.map_some, UInt8.ofNat_toNat]

theorem nullable?_eq_some : value.nullable? string? = some text ↔ NullableText text value := by
  cases value <;> cases text <;> simp [nullable?, string?, NullableText]

theorem in_of_required? (sound : ∀ value, read value = some a → Spelled value)
    (h : required? read name members = some a) : (Field.required name Spelled).In members := by
  obtain ⟨value, hvalue, ha⟩ := Option.bind_eq_some_iff.mp h
  exact .inl ⟨value, mem_of_lookup hvalue, sound value ha⟩

theorem required?_of_in (hkeys : (Json.object members).DistinctKeys) (h : Takes read Spelled a)
    (hin : (Field.required name Spelled).In members) : required? read name members = some a := by
  rcases hin with ⟨value, hmem, hspelled⟩ | ⟨homit, -⟩
  · have hlookup : members.lookup name = some value := lookup_of_mem hkeys.1 hmem
    rw [required?, hlookup]
    exact h value (hkeys.2.value hmem) hspelled
  · exact homit.elim

/-- A search through the members for one of a given name. -/
theorem eq_required? (find : List (String × Json) → Option α) (hnil : find [] = none)
    (hcons : ∀ key value members,
      find ((key, value) :: members) = if key = name then read value else find members) :
    find members = required? read name members := by
  induction members with
  | nil => exact hnil
  | cons member members ih =>
    obtain ⟨key, value⟩ := member
    rw [hcons, ih, required?, required?, List.lookup_cons]
    by_cases hkey : key = name
    · rw [if_pos hkey, hkey, beq_self_eq_true]
      rfl
    · rw [if_neg hkey, beq_false_of_ne (Ne.symm hkey)]

theorem in_of_optional? (h : optional? string? name members = some text) :
    (Field.nullable name text).In members := by
  rcases hvalue : members.lookup name with - | value
  · rw [optional?, hvalue] at h
    exact .inr ⟨(Option.some.inj h).symm, lookup_eq_none_iff_forall.mp hvalue⟩
  · rw [optional?, hvalue] at h
    exact .inl ⟨value, mem_of_lookup hvalue, nullable?_eq_some.mp h⟩

theorem optional?_of_in (hkeys : (Json.object members).DistinctKeys)
    (h : (Field.nullable name text).In members) : optional? string? name members = some text := by
  rcases h with ⟨value, hmem, hspelled⟩ | ⟨rfl, habsent⟩
  · have hlookup : members.lookup name = some value := lookup_of_mem hkeys.1 hmem
    rw [optional?, hlookup]
    exact nullable?_eq_some.mpr hspelled
  · have hlookup : members.lookup name = none := lookup_eq_none_iff_forall.mpr habsent
    rw [optional?, hlookup]

theorem takes_string (text : String) : Takes string? (Literal text) text :=
  fun _ _ => string?_eq_some.mpr

theorem takes_byte (byte : UInt8) : Takes byte? (Byte byte) byte :=
  fun _ _ => byte?_eq_some.mpr

end Fields

end MarkdownTree.Json
