import Mathlib.Data.List.Perm.Subperm
import MarkdownTree.Proofs.Json.Grammar

/-!
Equality of JSON values. The order of the members of an object does not count, and a grammar does not see
it: what a value spells, every equal value spells too (`Respects`).
-/

namespace MarkdownTree.Json

/-! ### Equality -/

mutual

/-- Whether two values are equal. Objects are equal if they have as many members, and equal values under
each name; numbers that are no integers, if they are written alike. -/
def equal : Json → Json → Bool
  | .null, .null => true
  | .bool a, .bool b => a == b
  | .int a, .int b => a == b
  | .decimal a, .decimal b => a == b
  | .string a, .string b => a == b
  | .array as, .array bs => equalAll as bs
  | .object as, .object bs => as.length == bs.length && equalIn as bs
  | _, _ => false

/-- Whether two arrays have equal elements in order. -/
def equalAll : List Json → List Json → Bool
  | [], [] => true
  | a :: as, b :: bs => equal a b && equalAll as bs
  | _, _ => false

/-- Whether each of the first members has an equal value under its name among the second. -/
def equalIn : List (String × Json) → List (String × Json) → Bool
  | [], _ => true
  | (name, a) :: as, bs => (bs.lookup name).any (fun b => equal a b) && equalIn as bs

end

instance : BEq Json := ⟨equal⟩

section Members

variable {as bs : List (String × Json)} {name : String} {a : Json}

theorem lookup_of_equalIn (h : equalIn as bs) (hmem : (name, a) ∈ as) :
    ∃ b, bs.lookup name = some b ∧ equal a b := by
  induction as with
  | nil => cases hmem
  | cons member as ih =>
    obtain ⟨key, value⟩ := member
    rw [equalIn, Bool.and_eq_true] at h
    obtain ⟨hfirst, hrest⟩ := h
    rcases List.mem_cons.mp hmem with heq | hmem
    · obtain ⟨rfl, rfl⟩ := Prod.mk.inj heq
      exact (Option.any_eq_true ..).mp hfirst
    · exact ih hrest hmem

theorem keys_subset_of_equalIn (h : equalIn as bs) : as.map Prod.fst ⊆ bs.map Prod.fst := by
  intro key hkey
  obtain ⟨⟨_, value⟩, hmem, rfl⟩ := List.mem_map.mp hkey
  obtain ⟨b, hlookup, -⟩ := lookup_of_equalIn h hmem
  exact List.mem_map.mpr ⟨_, mem_of_lookup hlookup, rfl⟩

/-- Equal objects have the same names. -/
theorem mem_keys_of_equalIn (hkeys : (as.map Prod.fst).Nodup) (hlength : as.length = bs.length)
    (h : equalIn as bs) {b : Json} (hmem : (name, b) ∈ bs) : ∃ a, (name, a) ∈ as := by
  have hperm : (as.map Prod.fst).Perm (bs.map Prod.fst) := by
    refine (hkeys.subperm (keys_subset_of_equalIn h)).perm_of_length_le ?_
    rw [List.length_map, List.length_map]
    exact Nat.le_of_eq hlength.symm
  have hname : name ∈ as.map Prod.fst := hperm.mem_iff.mpr (List.mem_map.mpr ⟨_, hmem, rfl⟩)
  obtain ⟨⟨_, a⟩, ha, rfl⟩ := List.mem_map.mp hname
  exact ⟨a, ha⟩

end Members

mutual

/-- A value equals itself. -/
theorem equal_self : ∀ {a : Json}, a.DistinctKeys → equal a a
  | .null, _ => rfl
  | .bool a, _ => beq_self_eq_true a
  | .int a, _ => beq_self_eq_true a
  | .decimal a, _ => beq_self_eq_true a
  | .string a, _ => beq_self_eq_true a
  | .array as, h => equalAll_self h
  | .object as, h => by
    have hmembers := equalIn_of_lookup h.2 fun name a => lookup_of_mem h.1
    rw [equal, hmembers, beq_self_eq_true, Bool.and_true]

theorem equalAll_self : ∀ {as : List Json}, DistinctKeysAll as → equalAll as as
  | [], _ => rfl
  | a :: as, h => by
    rw [equalAll, equal_self h.1, equalAll_self h.2, Bool.and_true]

theorem equalIn_of_lookup : ∀ {as bs : List (String × Json)}, DistinctKeysIn as →
    (∀ name a, (name, a) ∈ as → bs.lookup name = some a) → equalIn as bs
  | [], _, _, _ => rfl
  | (name, a) :: as, bs, h, hlookup => by
    have hfirst := hlookup name a List.mem_cons_self
    have hrest := equalIn_of_lookup h.2 fun name a ha => hlookup name a (List.mem_cons_of_mem _ ha)
    rw [equalIn, hfirst, Option.any_some, equal_self h.1, hrest, Bool.and_true]

end

/-! ### Grammars do not see the order of members -/

/-- What holds of a value holds of every value that is equal to it. -/
def Respects (P : Json → Prop) : Prop := ∀ a b : Json, a.DistinctKeys → equal a b → P a → P b

/-- What holds of the elements of an array holds of the elements of every array that is equal to it. -/
def RespectsAll (P : List Json → Prop) : Prop :=
  ∀ as bs : List Json, DistinctKeysAll as → equalAll as bs → P as → P bs

section Grammars

variable {b : Json} {name : String}

theorem eq_of_equal_string {text : String} (h : equal (.string text) b) : b = .string text := by
  cases b with
  | string other => rw [eq_of_beq h]
  | null | bool | int | decimal | array | object => cases h

theorem eq_of_equal_null (h : equal .null b) : b = .null := by
  cases b with
  | null => rfl
  | bool | int | decimal | string | array | object => cases h

theorem eq_of_equal_singleton {payload : Json} (h : equal (.object [(name, payload)]) b) :
    ∃ payload', b = .object [(name, payload')] ∧ equal payload payload' := by
  cases b with
  | object members =>
    rw [equal, Bool.and_eq_true, beq_iff_eq] at h
    obtain ⟨hlength, hmembers⟩ := h
    obtain ⟨payload', hlookup, hequal⟩ := lookup_of_equalIn hmembers List.mem_cons_self
    obtain ⟨member, rfl⟩ := List.length_eq_one_iff.mp hlength.symm
    obtain rfl := List.mem_singleton.mp (mem_of_lookup hlookup)
    exact ⟨payload', rfl, hequal⟩
  | null | bool | int | decimal | string | array => cases h

theorem respects_bare (name : String) : Respects (Bare name) := by
  rintro - b - h (rfl | rfl)
  · exact .inl (eq_of_equal_string h)
  · obtain ⟨payload, rfl, hpayload⟩ := eq_of_equal_singleton h
    exact .inr (by rw [eq_of_equal_null hpayload])

theorem respects_tagged {Payload : Json → Prop} (h : Respects Payload) :
    Respects (Tagged name Payload) := by
  rintro - b hkeys hequal ⟨payload, rfl, hpayload⟩
  obtain ⟨payload', rfl, hsame⟩ := eq_of_equal_singleton hequal
  exact ⟨payload', rfl, h _ _ hkeys.2.1 hsame hpayload⟩

theorem respects_literal (text : String) : Respects (Literal text) := by
  rintro - b - h rfl
  exact eq_of_equal_string h

theorem respects_byte (byte : UInt8) : Respects (Byte byte) := by
  rintro - b - h rfl
  cases b with
  | int other => exact congrArg Json.int (eq_of_beq h).symm
  | null | bool | decimal | string | array | object => cases h

theorem respects_nullableText (text : Option String) : Respects (NullableText text) := by
  cases text with
  | some text => exact respects_literal text
  | none =>
    rintro - b - h rfl
    exact eq_of_equal_null h

theorem respects_arrayOf {Elements : List Json → Prop} (h : RespectsAll Elements) :
    Respects (ArrayOf Elements) := by
  rintro - b hkeys hequal ⟨as, rfl, has⟩
  cases b with
  | array bs => exact ⟨bs, rfl, h as bs hkeys hequal has⟩
  | null | bool | int | decimal | string | object => cases hequal

theorem respectsAll_nil : RespectsAll fun values => values = [] := by
  rintro - bs - hequal rfl
  cases bs with
  | nil => rfl
  | cons b bs => cases hequal

theorem respectsAll_cons {P : Json → Prop} {Ps : List Json → Prop} (h : Respects P)
    (hs : RespectsAll Ps) : RespectsAll fun values =>
      ∃ first rest, values = first :: rest ∧ P first ∧ Ps rest := by
  rintro - bs hkeys hequal ⟨a, as, rfl, ha, has⟩
  cases bs with
  | nil => cases hequal
  | cons b bs =>
    rw [equalAll, Bool.and_eq_true] at hequal
    exact ⟨b, bs, rfl, h a b hkeys.1 hequal.1 ha, hs as bs hkeys.2 hequal.2 has⟩

theorem respectsAll_forall₂ {fields : List Field} (h : ∀ field ∈ fields, Respects field.Spelled) :
    RespectsAll (List.Forall₂ Field.Spelled fields) := by
  induction fields with
  | nil =>
    rintro - bs - hequal ⟨⟩
    cases bs with
    | nil => exact .nil
    | cons b bs => cases hequal
  | cons field fields ih =>
    rintro - bs hkeys hequal (_ | ⟨ha, has⟩)
    obtain ⟨hfirst, hrest⟩ := List.forall_mem_cons.mp h
    cases bs with
    | nil => cases hequal
    | cons b bs =>
      rw [equalAll, Bool.and_eq_true] at hequal
      exact .cons (hfirst _ b hkeys.1 hequal.1 ha) (ih hrest _ bs hkeys.2 hequal.2 has)

theorem respects_recordOf {fields : List Field} (h : ∀ field ∈ fields, Respects field.Spelled) :
    Respects (RecordOf fields) := by
  intro a b hkeys hequal hrecord
  cases a with
  | object as =>
    cases b with
    | object bs =>
      rw [equal, Bool.and_eq_true, beq_iff_eq] at hequal
      obtain ⟨hlength, hmembers⟩ := hequal
      intro field hfield
      rcases hrecord field hfield with ⟨value, hmem, hspelled⟩ | ⟨homit, habsent⟩
      · obtain ⟨value', hlookup, hequal⟩ := lookup_of_equalIn hmembers hmem
        have hspelled' := h field hfield _ _ (hkeys.2.value hmem) hequal hspelled
        exact .inl ⟨value', mem_of_lookup hlookup, hspelled'⟩
      · refine .inr ⟨homit, fun value hmem => ?_⟩
        obtain ⟨other, hother⟩ := mem_keys_of_equalIn hkeys.1 hlength hmembers hmem
        exact habsent other hother
    | null | bool | int | decimal | string | array => cases hequal
  | array as =>
    cases b with
    | array bs => exact respectsAll_forall₂ h as bs hkeys hequal hrecord
    | null | bool | int | decimal | string | object => cases hequal
  | null | bool | int | decimal | string => exact hrecord.elim

end Grammars

end MarkdownTree.Json
