import MarkdownTree.Proofs.Tree.Spelling.Sound

/-!
Reading the JSON form of a tree agrees with its grammar: what is spelled is read, where no object has two
members of one name, and nothing else is. Main statement: `Document.ofJson?_spellings`.
-/

namespace MarkdownTree

open Json

/-! ### List types and inlines -/

theorem ListType.takes_ofJson (type : ListType) : Takes ListType.ofJson? type.SpelledBy type := by
  intro value _ h
  cases type with
  | unordered | ordered => rcases h with rfl | rfl <;> rfl

theorem LeafInline.takes_ofJson (node : LeafInline) :
    Takes Inline.ofJson? node.SpelledBy (.leaf node) := by
  intro value _ h
  cases node with
  | softBreak | lineBreak => rcases h with rfl | rfl <;> rfl
  | text | code | html | custom =>
    obtain ⟨payload, rfl, rfl⟩ := h
    rfl

theorem Inline.memberOfJson?_eq (name : String) (members : List (String × Json)) :
    Inline.memberOfJson? name members = required? Inline.listOfJson? name members :=
  eq_required? (Inline.memberOfJson? name) rfl fun _ _ _ => rfl

section Span

variable {children : List Inline} (h : Takes Inline.listOfJson? (Inline.ListSpelledBy children) children)

include h

theorem Inline.takes_ofLinked (target : Target) :
    Takes Inline.ofLinked? (RecordOf (target.fields (Inline.ListSpelledBy children)))
      (children, target) := by
  intro value hkeys hrecord
  cases value with
  | object members =>
    obtain ⟨hfirst, htitle, hurl⟩ : (Field.required "children" _).In members ∧
        (Field.nullable "title" _).In members ∧ (Field.nullable "url" _).In members := by
      simpa [RecordOf, Target.fields] using hrecord
    simp [Inline.ofLinked?, Inline.memberOfJson?_eq, required?_of_in hkeys h hfirst,
      optional?_of_in hkeys htitle, optional?_of_in hkeys hurl]
  | array elements =>
    obtain _ | ⟨hfirst, _ | ⟨htitle, _ | ⟨hurl, _ | _⟩⟩⟩ := hrecord
    obtain ⟨hkeys, -⟩ := hkeys
    simp [Inline.ofLinked?, h _ hkeys hfirst, nullable?_eq_some.mpr htitle,
      nullable?_eq_some.mpr hurl]
  | null | bool | int | decimal | string => exact hrecord.elim

theorem Inline.takes_span (kind : Span) :
    Takes Inline.ofJson? (kind.SpelledBy (Inline.ListSpelledBy children)) (.span kind children) := by
  intro value hkeys hspelled
  cases kind with
  | emphasis | strong =>
    obtain ⟨payload, rfl, hpayload⟩ := hspelled
    have hread := h payload hkeys.2.1 hpayload
    simp [Inline.ofJson?, hread]
  | link target | image target =>
    obtain ⟨payload, rfl, hpayload⟩ := hspelled
    have hread := Inline.takes_ofLinked h target payload hkeys.2.1 hpayload
    simp [Inline.ofJson?, hread]

end Span

-- The walk is over the tree: the grammar takes it apart, and the value with it.
mutual

theorem Inline.takes_ofJson : ∀ x : Inline, Takes Inline.ofJson? x.SpelledBy x
  | .leaf node => LeafInline.takes_ofJson node
  | .span kind children => by
    refine Inline.takes_span ?_ kind
    rintro - hkeys ⟨elements, rfl, helements⟩
    exact Inline.allOfJson?_of_allSpelledBy children hkeys helements

theorem Inline.allOfJson?_of_allSpelledBy : ∀ (xs : List Inline) {values : List Json},
    DistinctKeysAll values → Inline.AllSpelledBy xs values → Inline.allOfJson? values = some xs
  | [], values, _, h => by
    rw [Inline.AllSpelledBy] at h
    rw [h, Inline.allOfJson?]
  | x :: xs, values, hkeys, h => by
    obtain ⟨first, rest, rfl, hfirst, hrest⟩ := h
    have here := Inline.takes_ofJson x first hkeys.1 hfirst
    have later := Inline.allOfJson?_of_allSpelledBy xs hkeys.2 hrest
    simp [Inline.allOfJson?, here, later]

end

theorem Inline.takes_listOfJson (xs : List Inline) :
    Takes Inline.listOfJson? (Inline.ListSpelledBy xs) xs := by
  rintro - hkeys ⟨elements, rfl, helements⟩
  exact Inline.allOfJson?_of_allSpelledBy xs hkeys helements

/-! ### Blocks without blocks in them -/

theorem LeafBlock.takes_ofCodeBlock (text : String) (language : Option String) :
    Takes LeafBlock.ofCodeBlock?
      (RecordOf [.required "text" (Literal text), .nullable "language" language])
      (.codeBlock text language) := by
  intro value hkeys hrecord
  cases value with
  | object members =>
    obtain ⟨htext, hlanguage⟩ : (Field.required "text" _).In members ∧
        (Field.nullable "language" _).In members := by simpa [RecordOf] using hrecord
    simp [LeafBlock.ofCodeBlock?, required?_of_in hkeys (takes_string text) htext,
      optional?_of_in hkeys hlanguage]
  | array elements =>
    obtain _ | ⟨htext, _ | ⟨hlanguage, _ | _⟩⟩ := hrecord
    simp [LeafBlock.ofCodeBlock?, string?_eq_some.mpr htext, nullable?_eq_some.mpr hlanguage]
  | null | bool | int | decimal | string => exact hrecord.elim

theorem LeafBlock.takes_ofJson (node : LeafBlock) :
    Takes Block.ofJson? node.SpelledBy (.leaf node) := by
  intro value hkeys h
  cases node with
  | thematicBreak => rcases h with rfl | rfl <;> rfl
  | html | custom =>
    obtain ⟨payload, rfl, rfl⟩ := h
    rfl
  | codeBlock text language =>
    obtain ⟨payload, rfl, hpayload⟩ := h
    have hread := LeafBlock.takes_ofCodeBlock text language payload hkeys.2.1 hpayload
    simp [Block.ofJson?, LeafBlock.ofMember?, hread]

theorem Block.takes_ofParagraph (text : List Inline) :
    Takes Block.ofParagraph? (RecordOf [.required "text" (Inline.ListSpelledBy text)])
      (.paragraph text) := by
  have takes := Inline.takes_listOfJson text
  intro value hkeys hrecord
  cases value with
  | object members =>
    have htext : (Field.required "text" (Inline.ListSpelledBy text)).In members := by
      simpa [RecordOf] using hrecord
    simp [Block.ofParagraph?, required?_of_in hkeys takes htext]
  | array elements =>
    obtain _ | ⟨htext, _ | _⟩ := hrecord
    simp [Block.ofParagraph?, takes _ hkeys.1 htext]
  | null | bool | int | decimal | string => exact hrecord.elim

theorem Block.takes_ofHeading (level : UInt8) (text : List Inline) :
    Takes Block.ofHeading?
      (RecordOf [.required "text" (Inline.ListSpelledBy text), .required "level" (Byte level)])
      (.heading level text) := by
  have takes := Inline.takes_listOfJson text
  intro value hkeys hrecord
  cases value with
  | object members =>
    obtain ⟨htext, hlevel⟩ : (Field.required "text" _).In members ∧
        (Field.required "level" _).In members := by simpa [RecordOf] using hrecord
    simp [Block.ofHeading?, required?_of_in hkeys takes htext,
      required?_of_in hkeys (takes_byte level) hlevel]
  | array elements =>
    obtain _ | ⟨htext, _ | ⟨hlevel, _ | _⟩⟩ := hrecord
    simp [Block.ofHeading?, takes _ hkeys.1 htext, byte?_eq_some.mpr hlevel]
  | null | bool | int | decimal | string => exact hrecord.elim

theorem Carrier.takes_ofJson (kind : Carrier) (text : List Inline) :
    Takes Block.ofJson? (kind.SpelledBy (Inline.ListSpelledBy text)) (.carrier kind text) := by
  intro value hkeys h
  cases kind with
  | paragraph =>
    obtain ⟨payload, rfl, hpayload⟩ := h
    exact Block.takes_ofParagraph text payload hkeys.2.1 hpayload
  | heading level =>
    obtain ⟨payload, rfl, hpayload⟩ := h
    exact Block.takes_ofHeading level text payload hkeys.2.1 hpayload

/-! ### Blocks -/

theorem Block.itemsMemberOfJson?_eq (members : List (String × Json)) :
    Block.itemsMemberOfJson? members = required? Block.itemsOfJson? "items" members :=
  eq_required? Block.itemsMemberOfJson? rfl fun _ _ _ => rfl

theorem Block.blocksMemberOfJson?_eq (members : List (String × Json)) :
    Block.blocksMemberOfJson? members = required? Block.listOfJson? "items" members :=
  eq_required? Block.blocksMemberOfJson? rfl fun _ _ _ => rfl

theorem Block.takes_ofList {items : List (List Block)}
    (h : Takes Block.itemsOfJson? (ArrayOf (Block.ItemsSpelledBy items)) items) (type : ListType) :
    Takes Block.ofJson? (Block.list type items).SpelledBy (.list type items) := by
  rintro - hkeys ⟨payload, rfl, hrecord⟩
  obtain ⟨-, hkeys, -⟩ := hkeys
  have takes := ListType.takes_ofJson type
  cases payload with
  | object members =>
    obtain ⟨hitems, htype⟩ : (Field.required "items" _).In members ∧
        (Field.required "list_type" _).In members := by simpa [RecordOf] using hrecord
    simp [Block.ofJson?, Block.ofList?, Block.itemsMemberOfJson?_eq, required?_of_in hkeys h hitems,
      required?_of_in hkeys takes htype]
  | array elements =>
    obtain _ | ⟨hitems, _ | ⟨htype, _ | _⟩⟩ := hrecord
    simp [Block.ofJson?, Block.ofList?, h _ hkeys.1 hitems, takes _ hkeys.2.1 htype]
  | null | bool | int | decimal | string => exact hrecord.elim

theorem Block.takes_ofQuote {blocks : List Block}
    (h : Takes Block.listOfJson? (ArrayOf (Block.AllSpelledBy blocks)) blocks) :
    Takes Block.ofJson? (Block.quote blocks).SpelledBy (.quote blocks) := by
  rintro - hkeys ⟨payload, rfl, hrecord⟩
  obtain ⟨-, hkeys, -⟩ := hkeys
  cases payload with
  | object members =>
    have hblocks : (Field.required "items" (ArrayOf (Block.AllSpelledBy blocks))).In members := by
      simpa [RecordOf] using hrecord
    simp [Block.ofJson?, Block.ofQuote?, Block.blocksMemberOfJson?_eq, required?_of_in hkeys h hblocks]
  | array elements =>
    obtain _ | ⟨hblocks, _ | _⟩ := hrecord
    simp [Block.ofJson?, Block.ofQuote?, h _ hkeys.1 hblocks]
  | null | bool | int | decimal | string => exact hrecord.elim

mutual

theorem Block.takes_ofJson : ∀ b : Block, Takes Block.ofJson? b.SpelledBy b
  | .leaf node => LeafBlock.takes_ofJson node
  | .carrier kind text => Carrier.takes_ofJson kind text
  | .list type items => by
    refine Block.takes_ofList ?_ type
    rintro - hkeys ⟨elements, rfl, helements⟩
    exact Block.allItemsOfJson?_of_itemsSpelledBy items hkeys helements
  | .quote blocks => by
    refine Block.takes_ofQuote ?_
    rintro - hkeys ⟨elements, rfl, helements⟩
    exact Block.allOfJson?_of_allSpelledBy blocks hkeys helements

theorem Block.allOfJson?_of_allSpelledBy : ∀ (bs : List Block) {values : List Json},
    DistinctKeysAll values → Block.AllSpelledBy bs values → Block.allOfJson? values = some bs
  | [], values, _, h => by
    rw [Block.AllSpelledBy] at h
    rw [h, Block.allOfJson?]
  | b :: bs, values, hkeys, h => by
    obtain ⟨first, rest, rfl, hfirst, hrest⟩ := h
    have here := Block.takes_ofJson b first hkeys.1 hfirst
    have later := Block.allOfJson?_of_allSpelledBy bs hkeys.2 hrest
    simp [Block.allOfJson?, here, later]

theorem Block.allItemsOfJson?_of_itemsSpelledBy : ∀ (items : List (List Block)) {values : List Json},
    DistinctKeysAll values → Block.ItemsSpelledBy items values →
      Block.allItemsOfJson? values = some items
  | [], values, _, h => by
    rw [Block.ItemsSpelledBy] at h
    rw [h, Block.allItemsOfJson?]
  | item :: items, values, hkeys, h => by
    obtain ⟨-, rest, rfl, ⟨elements, rfl, hfirst⟩, hrest⟩ := h
    have here := Block.allOfJson?_of_allSpelledBy item hkeys.1 hfirst
    have later := Block.allItemsOfJson?_of_itemsSpelledBy items hkeys.2 hrest
    simp [Block.allItemsOfJson?, Block.listOfJson?, here, later]

end

theorem Document.takes_ofJson (doc : Document) : Takes Document.ofJson? doc.SpelledBy doc := by
  rintro - hkeys ⟨elements, rfl, helements⟩
  exact Block.allOfJson?_of_allSpelledBy doc hkeys helements

/-! ### Reading decides the grammar -/

/-- **How a value is read.** What is read is what the value spells, and nothing is read where it spells
nothing. -/
structure Json.Decides {α : Type} (read : Json → Option α) (SpelledBy : α → Json → Prop) (value : Json) :
    Prop where
  eq_some_iff : ∀ a, read value = some a ↔ SpelledBy a value
  eq_none_iff : read value = none ↔ ∀ a, ¬ SpelledBy a value

theorem Json.Decides.of_takes {α : Type} {read : Json → Option α} {SpelledBy : α → Json → Prop}
    {value : Json} (hkeys : value.DistinctKeys) (takes : ∀ a, Takes read (SpelledBy a) a)
    (sound : ∀ a, read value = some a → SpelledBy a value) : Decides read SpelledBy value := by
  have some_iff (a : α) : read value = some a ↔ SpelledBy a value := ⟨sound a, takes a value hkeys⟩
  refine ⟨some_iff, ?_⟩
  rw [Option.eq_none_iff_forall_ne_some]
  exact forall_congr' fun a => not_congr (some_iff a)

/-- **Reading accepts exactly the grammar.** Where no object has two members of one name, a value is read
as the document, block, inline, list of inlines or list type that it spells, and is not read as any if it
spells none. -/
theorem Document.ofJson?_spellings (value : Json) (hkeys : value.DistinctKeys) :
    Decides Document.ofJson? Document.SpelledBy value ∧
    Decides Block.ofJson? Block.SpelledBy value ∧
    Decides Inline.ofJson? Inline.SpelledBy value ∧
    Decides Inline.listOfJson? Inline.ListSpelledBy value ∧
    Decides ListType.ofJson? ListType.SpelledBy value := by
  refine ⟨?_, ?_, ?_, ?_, ?_⟩
  · exact .of_takes hkeys Document.takes_ofJson fun _ => Block.listSpelledBy_of_listOfJson? value
  · exact .of_takes hkeys Block.takes_ofJson fun _ => Block.spelledBy_of_ofJson? value
  · exact .of_takes hkeys Inline.takes_ofJson fun _ => Inline.spelledBy_of_ofJson? value
  · exact .of_takes hkeys Inline.takes_listOfJson fun _ => Inline.listSpelledBy_of_listOfJson? value
  · exact .of_takes hkeys ListType.takes_ofJson fun _ => ListType.spelledBy_of_ofJson?

/-- Arrays for records, payloads of `null`, fields left out and a field that no record has. But an array
has all fields of its record, nullable ones too. -/
theorem Document.ofJson?_spellings_mixed :
    let value : Json := .array [
      .object [("heading", .array [.array [.object [("soft_break", .null)], .object [("image",
        .object [("size", .decimal "1.5"), ("url", .null), ("children", .array [])])]], .int 255])],
      .object [("list", .array [.array [.array [], .array [.string "thematic_break"]],
        .object [("ordered", .null)]])],
      .object [("code_block", .object [("text", .string "a")])]]
    let short : Json := .array [.object [("code_block", .array [.string "a"])]]
    (value.DistinctKeys ∧ Document.SpelledBy [.heading 255 [.softBreak, .span (.image {}) []],
      .list .ordered [[], [.thematicBreak]], .codeBlock "a" none] value) ∧
    (short.DistinctKeys ∧ ∀ doc, ¬ Document.SpelledBy doc short) := by
  intro value short
  have hvalue : value.DistinctKeys := by simp [value, DistinctKeys, DistinctKeysAll, DistinctKeysIn]
  have hshort : short.DistinctKeys := by simp [short, DistinctKeys, DistinctKeysAll, DistinctKeysIn]
  obtain ⟨decided, -⟩ := Document.ofJson?_spellings value hvalue
  obtain ⟨refused, -⟩ := Document.ofJson?_spellings short hshort
  exact ⟨⟨hvalue, (decided.eq_some_iff _).mp rfl⟩, hshort, refused.eq_none_iff.mp rfl⟩

end MarkdownTree
