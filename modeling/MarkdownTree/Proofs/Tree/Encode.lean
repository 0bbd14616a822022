import MarkdownTree.Proofs.Json.Equal
import MarkdownTree.Proofs.Tree.Decode

/-!
Writing the JSON form of a tree. What is written spells the tree, so it is read as the same tree; and as
equal values spell the same trees, trees are equal where what is written for them is. Main statement:
`Document.toJson_lossless`.
-/

namespace MarkdownTree

open Json

/-! ### Equal values spell the same trees -/

theorem ListType.respects_spelledBy (type : ListType) : Respects type.SpelledBy := by
  cases type with
  | unordered | ordered => exact respects_bare _

theorem LeafInline.respects_spelledBy (node : LeafInline) : Respects node.SpelledBy := by
  cases node with
  | softBreak | lineBreak => exact respects_bare _
  | text literal | code literal | html literal | custom literal =>
    exact respects_tagged (respects_literal literal)

theorem Span.respects_spelledBy {Children : Json → Prop} (h : Respects Children) (kind : Span) :
    Respects (kind.SpelledBy Children) := by
  have linked (target : Target) : Respects (RecordOf (target.fields Children)) := by
    refine respects_recordOf ?_
    simp [Target.fields, Field.required, Field.nullable, h, respects_nullableText]
  cases kind with
  | emphasis | strong => exact respects_tagged h
  | link target | image target => exact respects_tagged (linked target)

mutual

theorem Inline.respects_spelledBy : ∀ x : Inline, Respects x.SpelledBy
  | .leaf node => node.respects_spelledBy
  | .span kind children => by
    have inside := Inline.respectsAll_allSpelledBy children
    exact kind.respects_spelledBy (respects_arrayOf inside)

theorem Inline.respectsAll_allSpelledBy : ∀ xs : List Inline, RespectsAll (Inline.AllSpelledBy xs)
  | [] => respectsAll_nil
  | x :: xs => respectsAll_cons (Inline.respects_spelledBy x) (Inline.respectsAll_allSpelledBy xs)

end

theorem Inline.respects_listSpelledBy (xs : List Inline) : Respects (Inline.ListSpelledBy xs) :=
  respects_arrayOf (Inline.respectsAll_allSpelledBy xs)

theorem LeafBlock.respects_spelledBy (node : LeafBlock) : Respects node.SpelledBy := by
  cases node with
  | thematicBreak => exact respects_bare _
  | html literal | custom literal => exact respects_tagged (respects_literal literal)
  | codeBlock text language =>
    refine respects_tagged (respects_recordOf ?_)
    simp [Field.required, Field.nullable, respects_literal, respects_nullableText]

theorem Carrier.respects_spelledBy {Text : Json → Prop} (h : Respects Text) (kind : Carrier) :
    Respects (kind.SpelledBy Text) := by
  cases kind with
  | paragraph =>
    refine respects_tagged (respects_recordOf ?_)
    simp [Field.required, h]
  | heading level =>
    refine respects_tagged (respects_recordOf ?_)
    simp [Field.required, h, respects_byte]

mutual

theorem Block.respects_spelledBy : ∀ b : Block, Respects b.SpelledBy
  | .leaf node => node.respects_spelledBy
  | .carrier kind text => kind.respects_spelledBy (Inline.respects_listSpelledBy text)
  | .list type items => by
    have inside := respects_arrayOf (Block.respectsAll_itemsSpelledBy items)
    refine respects_tagged (respects_recordOf ?_)
    simp [Field.required, inside, type.respects_spelledBy]
  | .quote blocks => by
    have inside := respects_arrayOf (Block.respectsAll_allSpelledBy blocks)
    refine respects_tagged (respects_recordOf ?_)
    simp [Field.required, inside]

theorem Block.respectsAll_allSpelledBy : ∀ bs : List Block, RespectsAll (Block.AllSpelledBy bs)
  | [] => respectsAll_nil
  | b :: bs => respectsAll_cons (Block.respects_spelledBy b) (Block.respectsAll_allSpelledBy bs)

theorem Block.respectsAll_itemsSpelledBy : ∀ items : List (List Block),
    RespectsAll (Block.ItemsSpelledBy items)
  | [] => respectsAll_nil
  | item :: items => respectsAll_cons (respects_arrayOf (Block.respectsAll_allSpelledBy item))
      (Block.respectsAll_itemsSpelledBy items)

end

theorem Document.respects_spelledBy (doc : Document) : Respects doc.SpelledBy :=
  respects_arrayOf (Block.respectsAll_allSpelledBy doc)

/-! ### What is written -/

/-- The JSON form of a list of inlines. -/
def Inline.listToJson (xs : List Inline) : Json := .array (Inline.toJsonAll xs)

theorem ListType.spelledBy_toJson (type : ListType) : type.SpelledBy type.toJson := by
  cases type with
  | unordered | ordered => exact .inl rfl

theorem LeafInline.spelledBy_toJson (node : LeafInline) : node.SpelledBy node.toJson := by
  cases node with
  | softBreak | lineBreak => exact .inl rfl
  | text | code | html | custom => exact ⟨_, rfl, rfl⟩

theorem Span.spelledBy_toJson {Children : Json → Prop} {children : Json} (h : Children children)
    (kind : Span) : kind.SpelledBy Children (kind.toJson children) := by
  have linked (target : Target) : RecordOf (target.fields Children) (target.toJson children) := by
    simp [RecordOf, Target.fields, Target.toJson, in_required_of_mem h, in_nullable_of_mem]
  cases kind with
  | emphasis | strong => exact ⟨_, rfl, h⟩
  | link target | image target => exact ⟨_, rfl, linked target⟩

mutual

theorem Inline.spelledBy_toJson : ∀ x : Inline, x.SpelledBy x.toJson
  | .leaf node => node.spelledBy_toJson
  | .span kind children =>
    kind.spelledBy_toJson ⟨_, rfl, Inline.allSpelledBy_toJsonAll children⟩

theorem Inline.allSpelledBy_toJsonAll : ∀ xs : List Inline,
    Inline.AllSpelledBy xs (Inline.toJsonAll xs)
  | [] => rfl
  | x :: xs => ⟨_, _, rfl, Inline.spelledBy_toJson x, Inline.allSpelledBy_toJsonAll xs⟩

end

theorem Inline.listSpelledBy_listToJson (xs : List Inline) : Inline.ListSpelledBy xs (listToJson xs) :=
  ⟨_, rfl, Inline.allSpelledBy_toJsonAll xs⟩

theorem LeafBlock.spelledBy_toJson (node : LeafBlock) : node.SpelledBy node.toJson := by
  cases node with
  | thematicBreak => exact .inl rfl
  | html | custom => exact ⟨_, rfl, rfl⟩
  | codeBlock text language =>
    have htext : Literal text (.string text) := rfl
    refine ⟨_, rfl, ?_⟩
    simp [RecordOf, in_required_of_mem htext, in_nullable_of_mem]

theorem Carrier.spelledBy_toJson {Text : Json → Prop} {text : Json} (h : Text text) (kind : Carrier) :
    kind.SpelledBy Text (kind.toJson text) := by
  cases kind with
  | paragraph =>
    refine ⟨_, rfl, ?_⟩
    simp [RecordOf, in_required_of_mem h]
  | heading level =>
    have hlevel : Byte level (.int level.toNat) := rfl
    refine ⟨_, rfl, ?_⟩
    simp [RecordOf, in_required_of_mem h, in_required_of_mem hlevel]

mutual

theorem Block.spelledBy_toJson : ∀ b : Block, b.SpelledBy b.toJson
  | .leaf node => node.spelledBy_toJson
  | .carrier kind text => kind.spelledBy_toJson (Inline.listSpelledBy_listToJson text)
  | .list type items => by
    have hitems : ArrayOf (Block.ItemsSpelledBy items) (.array (Block.toJsonItems items)) :=
      ⟨_, rfl, Block.itemsSpelledBy_toJsonItems items⟩
    refine ⟨_, rfl, ?_⟩
    simp [RecordOf, in_required_of_mem hitems, in_required_of_mem type.spelledBy_toJson]
  | .quote blocks => by
    have hblocks : ArrayOf (Block.AllSpelledBy blocks) (.array (Block.toJsonAll blocks)) :=
      ⟨_, rfl, Block.allSpelledBy_toJsonAll blocks⟩
    refine ⟨_, rfl, ?_⟩
    simp [RecordOf, in_required_of_mem hblocks]

theorem Block.allSpelledBy_toJsonAll : ∀ bs : List Block, Block.AllSpelledBy bs (Block.toJsonAll bs)
  | [] => rfl
  | b :: bs => ⟨_, _, rfl, Block.spelledBy_toJson b, Block.allSpelledBy_toJsonAll bs⟩

theorem Block.itemsSpelledBy_toJsonItems : ∀ items : List (List Block),
    Block.ItemsSpelledBy items (Block.toJsonItems items)
  | [] => rfl
  | item :: items => ⟨_, _, rfl, ⟨_, rfl, Block.allSpelledBy_toJsonAll item⟩,
      Block.itemsSpelledBy_toJsonItems items⟩

end

theorem Document.spelledBy_toJson (doc : Document) : doc.SpelledBy doc.toJson :=
  ⟨_, rfl, Block.allSpelledBy_toJsonAll doc⟩

/-! ### What is written has distinct keys -/

theorem ListType.distinctKeys_toJson (type : ListType) : type.toJson.DistinctKeys := by
  cases type <;> trivial

theorem LeafInline.distinctKeys_toJson (node : LeafInline) : node.toJson.DistinctKeys := by
  cases node <;> simp [LeafInline.toJson, DistinctKeys, DistinctKeysIn]

theorem Span.distinctKeys_toJson {children : Json} (h : children.DistinctKeys) (kind : Span) :
    (kind.toJson children).DistinctKeys := by
  cases kind <;> simp [Span.toJson, Target.toJson, DistinctKeys, DistinctKeysIn, h]

mutual

theorem Inline.distinctKeys_toJson : ∀ x : Inline, x.toJson.DistinctKeys
  | .leaf node => node.distinctKeys_toJson
  | .span kind children => by
    have inside : (Inline.listToJson children).DistinctKeys := Inline.distinctKeys_toJsonAll children
    exact kind.distinctKeys_toJson inside

theorem Inline.distinctKeys_toJsonAll : ∀ xs : List Inline, DistinctKeysAll (Inline.toJsonAll xs)
  | [] => trivial
  | x :: xs => ⟨Inline.distinctKeys_toJson x, Inline.distinctKeys_toJsonAll xs⟩

end

theorem LeafBlock.distinctKeys_toJson (node : LeafBlock) : node.toJson.DistinctKeys := by
  cases node <;> simp [LeafBlock.toJson, DistinctKeys, DistinctKeysIn]

theorem Carrier.distinctKeys_toJson {text : Json} (h : text.DistinctKeys) (kind : Carrier) :
    (kind.toJson text).DistinctKeys := by
  cases kind <;> simp [Carrier.toJson, DistinctKeys, DistinctKeysIn, h]

mutual

theorem Block.distinctKeys_toJson : ∀ b : Block, b.toJson.DistinctKeys
  | .leaf node => node.distinctKeys_toJson
  | .carrier kind text => by
    have inside : (Inline.listToJson text).DistinctKeys := Inline.distinctKeys_toJsonAll text
    exact kind.distinctKeys_toJson inside
  | .list type items => by
    have inside := Block.distinctKeys_toJsonItems items
    simp [Block.toJson, DistinctKeys, DistinctKeysIn, inside, type.distinctKeys_toJson]
  | .quote blocks => by
    have inside := Block.distinctKeys_toJsonAll blocks
    simp [Block.toJson, DistinctKeys, DistinctKeysIn, inside]

theorem Block.distinctKeys_toJsonAll : ∀ bs : List Block, DistinctKeysAll (Block.toJsonAll bs)
  | [] => trivial
  | b :: bs => ⟨Block.distinctKeys_toJson b, Block.distinctKeys_toJsonAll bs⟩

theorem Block.distinctKeys_toJsonItems : ∀ items : List (List Block),
    DistinctKeysAll (Block.toJsonItems items)
  | [] => trivial
  | item :: items => ⟨Block.distinctKeys_toJsonAll item, Block.distinctKeys_toJsonItems items⟩

end

/-! ### Writing loses nothing -/

/-- **A JSON form that loses nothing.** What is written is read as what it was written for. Two things are
equal where the values written for them are, and then these are even written alike. Where a value is read
and the outcome is written, the new value is read as the old one and written again as it is. -/
structure Json.Lossless {α : Type} [BEq α] (write : α → Json) (read : Json → Option α) : Prop where
  read_write : ∀ a, read (write a) = some a
  beq_iff : ∀ a b, a == b ↔ write a == write b
  eq_iff : ∀ a b, a = b ↔ write a = write b
  rewrite : ∀ value value', (read value).map write = some value' →
    read value' = read value ∧ (read value').map write = some value'

theorem Json.Lossless.of_spelled {α : Type} [BEq α] [LawfulBEq α] {write : α → Json}
    {read : Json → Option α} {SpelledBy : α → Json → Prop} (takes : ∀ a, Takes read (SpelledBy a) a)
    (respects : ∀ a, Respects (SpelledBy a)) (spelled : ∀ a, SpelledBy a (write a))
    (hkeys : ∀ a, (write a).DistinctKeys) : Lossless write read := by
  have read_write (a : α) : read (write a) = some a := takes a _ (hkeys a) (spelled a)
  have eq_of_equal (a b : α) (h : equal (write a) (write b)) : a = b := by
    have hspelled : SpelledBy a (write b) := respects a _ _ (hkeys a) h (spelled a)
    have hread : read (write b) = some a := takes a _ (hkeys b) hspelled
    exact Option.some.inj (hread.symm.trans (read_write b))
  refine ⟨read_write, ?_, ?_, ?_⟩
  · intro a b
    constructor
    · intro h
      rw [eq_of_beq h]
      exact equal_self (hkeys b)
    · intro h
      rw [eq_of_equal a b h]
      exact beq_self_eq_true b
  · intro a b
    constructor
    · rintro rfl
      rfl
    · intro h
      refine eq_of_equal a b ?_
      rw [h]
      exact equal_self (hkeys b)
  · intro value value' h
    obtain ⟨a, ha, rfl⟩ := Option.map_eq_some_iff.mp h
    rw [read_write, ha]
    exact ⟨rfl, rfl⟩

/-- **The JSON form of trees loses nothing**, for documents, blocks, inlines, lists of inlines and list
types, whatever they hold. -/
theorem Document.toJson_lossless :
    Lossless Document.toJson Document.ofJson? ∧
    Lossless Block.toJson Block.ofJson? ∧
    Lossless Inline.toJson Inline.ofJson? ∧
    Lossless Inline.listToJson Inline.listOfJson? ∧
    Lossless ListType.toJson ListType.ofJson? := by
  refine ⟨?_, ?_, ?_, ?_, ?_⟩
  · exact .of_spelled Document.takes_ofJson Document.respects_spelledBy Document.spelledBy_toJson
      Block.distinctKeys_toJsonAll
  · exact .of_spelled Block.takes_ofJson Block.respects_spelledBy Block.spelledBy_toJson
      Block.distinctKeys_toJson
  · exact .of_spelled Inline.takes_ofJson Inline.respects_spelledBy Inline.spelledBy_toJson
      Inline.distinctKeys_toJson
  · exact .of_spelled Inline.takes_listOfJson Inline.respects_listSpelledBy
      Inline.listSpelledBy_listToJson Inline.distinctKeys_toJsonAll
  · exact .of_spelled ListType.takes_ofJson ListType.respects_spelledBy ListType.spelledBy_toJson
      ListType.distinctKeys_toJson

end MarkdownTree
