import MarkdownTree.Proofs.Tree.Spelling

/-!
What is read from a JSON value is what the value spells, whether or not its keys are distinct. Each function
that reads has a lemma of its own.
-/

namespace MarkdownTree

open Json

/-! ### List types and leaves -/

theorem ListType.spelledBy_of_ofName? {name : String} {type : ListType}
    (h : ListType.ofName? name = some type) : type.SpelledBy (.string name) ∧
      type.SpelledBy (.object [(name, .null)]) := by
  unfold ListType.ofName? at h
  split at h
  all_goals cases h
  all_goals exact ⟨.inl rfl, .inr rfl⟩

theorem ListType.spelledBy_of_ofJson? {value : Json} {type : ListType}
    (h : ListType.ofJson? value = some type) : type.SpelledBy value := by
  unfold ListType.ofJson? at h
  split at h
  · exact (ListType.spelledBy_of_ofName? h).1
  · exact (ListType.spelledBy_of_ofName? h).2
  · cases h

theorem LeafInline.spelledBy_of_ofName? {name : String} {node : LeafInline}
    (h : LeafInline.ofName? name = some node) : node.SpelledBy (.string name) ∧
      node.SpelledBy (.object [(name, .null)]) := by
  unfold LeafInline.ofName? at h
  split at h
  all_goals cases h
  all_goals exact ⟨.inl rfl, .inr rfl⟩

theorem LeafInline.spelledBy_of_ofMember? {name : String} {payload : Json} {node : LeafInline}
    (h : LeafInline.ofMember? name payload = some node) :
    node.SpelledBy (.object [(name, payload)]) := by
  unfold LeafInline.ofMember? at h
  split at h
  case h_5 => exact (LeafInline.spelledBy_of_ofName? h).2
  all_goals cases h
  all_goals exact ⟨_, rfl, rfl⟩

theorem LeafBlock.spelledBy_of_ofName? {name : String} {node : LeafBlock}
    (h : LeafBlock.ofName? name = some node) : node.SpelledBy (.string name) ∧
      node.SpelledBy (.object [(name, .null)]) := by
  unfold LeafBlock.ofName? at h
  split at h
  · cases h
    exact ⟨.inl rfl, .inr rfl⟩
  · cases h

theorem LeafBlock.record_of_ofCodeBlock? {value : Json} {node : LeafBlock}
    (h : LeafBlock.ofCodeBlock? value = some node) : ∃ text language, node = .codeBlock text language ∧
      RecordOf [.required "text" (Literal text), .nullable "language" language] value := by
  unfold LeafBlock.ofCodeBlock? at h
  split at h
  · obtain ⟨text, htext, h⟩ := Option.bind_eq_some_iff.mp h
    obtain ⟨language, hlanguage, h⟩ := Option.bind_eq_some_iff.mp h
    cases h
    have hfirst : (Field.required "text" (Literal text)).In _ :=
      in_of_required? (fun _ => string?_eq_some.mp) htext
    refine ⟨text, language, rfl, ?_⟩
    simp [RecordOf, hfirst, in_of_optional? hlanguage]
  · obtain ⟨text, htext, h⟩ := Option.bind_eq_some_iff.mp h
    obtain ⟨language, hlanguage, h⟩ := Option.bind_eq_some_iff.mp h
    cases h
    exact ⟨text, language, rfl, .cons (string?_eq_some.mp htext)
      (.cons (nullable?_eq_some.mp hlanguage) .nil)⟩
  · cases h

theorem LeafBlock.spelledBy_of_ofMember? {name : String} {payload : Json} {node : LeafBlock}
    (h : LeafBlock.ofMember? name payload = some node) :
    node.SpelledBy (.object [(name, payload)]) := by
  unfold LeafBlock.ofMember? at h
  split at h
  · obtain ⟨text, language, rfl, hrecord⟩ := LeafBlock.record_of_ofCodeBlock? h
    exact ⟨_, rfl, hrecord⟩
  · cases h
    exact ⟨_, rfl, rfl⟩
  · cases h
    exact ⟨_, rfl, rfl⟩
  · exact (LeafBlock.spelledBy_of_ofName? h).2
  · cases h

/-! ### Inlines -/

-- The walk is over the value: what is under a name, in an array or among the members is smaller.
mutual

theorem Inline.spelledBy_of_ofJson? : ∀ (value : Json) {x : Inline},
    Inline.ofJson? value = some x → x.SpelledBy value
  | .string name, x, h => by
    obtain ⟨node, hnode, rfl⟩ := Option.map_eq_some_iff.mp h
    exact (LeafInline.spelledBy_of_ofName? hnode).1
  | .object [(name, payload)], x, h => by
    unfold Inline.ofJson? at h
    split at h
    · obtain ⟨children, hchildren, rfl⟩ := Option.map_eq_some_iff.mp h
      exact ⟨_, rfl, Inline.listSpelledBy_of_listOfJson? payload hchildren⟩
    · obtain ⟨children, hchildren, rfl⟩ := Option.map_eq_some_iff.mp h
      exact ⟨_, rfl, Inline.listSpelledBy_of_listOfJson? payload hchildren⟩
    · obtain ⟨⟨children, target⟩, hlinked, rfl⟩ := Option.map_eq_some_iff.mp h
      exact ⟨_, rfl, Inline.record_of_ofLinked? payload hlinked⟩
    · obtain ⟨⟨children, target⟩, hlinked, rfl⟩ := Option.map_eq_some_iff.mp h
      exact ⟨_, rfl, Inline.record_of_ofLinked? payload hlinked⟩
    · obtain ⟨node, hnode, rfl⟩ := Option.map_eq_some_iff.mp h
      exact LeafInline.spelledBy_of_ofMember? hnode
  | .object [], x, h | .object (_ :: _ :: _), x, h | .null, x, h | .bool _, x, h | .int _, x, h
  | .decimal _, x, h | .array _, x, h => by cases h

theorem Inline.listSpelledBy_of_listOfJson? : ∀ (value : Json) {xs : List Inline},
    Inline.listOfJson? value = some xs → Inline.ListSpelledBy xs value
  | .array elements, xs, h => ⟨elements, rfl, Inline.allSpelledBy_of_allOfJson? elements h⟩
  | .null, xs, h | .bool _, xs, h | .int _, xs, h | .decimal _, xs, h | .string _, xs, h
  | .object _, xs, h => by cases h

theorem Inline.allSpelledBy_of_allOfJson? : ∀ (values : List Json) {xs : List Inline},
    Inline.allOfJson? values = some xs → Inline.AllSpelledBy xs values
  | [], xs, h => by
    cases h
    rfl
  | value :: values, xs, h => by
    obtain ⟨y, hy, h⟩ := Option.bind_eq_some_iff.mp h
    obtain ⟨ys, hys, h⟩ := Option.bind_eq_some_iff.mp h
    cases h
    exact ⟨value, values, rfl, Inline.spelledBy_of_ofJson? value hy,
      Inline.allSpelledBy_of_allOfJson? values hys⟩

theorem Inline.record_of_ofLinked? : ∀ (value : Json) {children : List Inline} {target : Target},
    Inline.ofLinked? value = some (children, target) →
      RecordOf (target.fields (Inline.ListSpelledBy children)) value
  | .object members, children, target, h => by
    obtain ⟨children', hchildren, h⟩ := Option.bind_eq_some_iff.mp h
    obtain ⟨title, htitle, h⟩ := Option.bind_eq_some_iff.mp h
    obtain ⟨url, hurl, h⟩ := Option.bind_eq_some_iff.mp h
    cases h
    have hfirst := Inline.in_of_memberOfJson? "children" members hchildren
    simp [RecordOf, Target.fields, hfirst, in_of_optional? htitle, in_of_optional? hurl]
  | .array [first, title, url], children, target, h => by
    obtain ⟨children', hchildren, h⟩ := Option.bind_eq_some_iff.mp h
    obtain ⟨title', htitle, h⟩ := Option.bind_eq_some_iff.mp h
    obtain ⟨url', hurl, h⟩ := Option.bind_eq_some_iff.mp h
    cases h
    exact .cons (Inline.listSpelledBy_of_listOfJson? first hchildren)
      (.cons (nullable?_eq_some.mp htitle) (.cons (nullable?_eq_some.mp hurl) .nil))
  | .array [], _, _, h | .array [_], _, _, h | .array [_, _], _, _, h
  | .array (_ :: _ :: _ :: _ :: _), _, _, h | .null, _, _, h | .bool _, _, _, h | .int _, _, _, h
  | .decimal _, _, _, h | .string _, _, _, h => by cases h

theorem Inline.in_of_memberOfJson? (name : String) : ∀ (members : List (String × Json))
    {xs : List Inline}, Inline.memberOfJson? name members = some xs →
      (Field.required name (Inline.ListSpelledBy xs)).In members
  | [], xs, h => by cases h
  | (key, value) :: members, xs, h => by
    unfold Inline.memberOfJson? at h
    split at h
    · rename_i hkey
      exact .inl ⟨value, hkey ▸ List.mem_cons_self, Inline.listSpelledBy_of_listOfJson? value h⟩
    · exact (Inline.in_of_memberOfJson? name members h).cons

end

/-! ### Blocks -/

theorem Block.spelledBy_of_ofParagraph? {value : Json} {b : Block}
    (h : Block.ofParagraph? value = some b) : b.SpelledBy (.object [("paragraph", value)]) := by
  unfold Block.ofParagraph? at h
  split at h
  · obtain ⟨text, htext, rfl⟩ := Option.map_eq_some_iff.mp h
    have hfirst := in_of_required? (fun value => Inline.listSpelledBy_of_listOfJson? value) htext
    refine ⟨_, rfl, ?_⟩
    simp [RecordOf, hfirst]
  · obtain ⟨text, htext, rfl⟩ := Option.map_eq_some_iff.mp h
    exact ⟨_, rfl, .cons (Inline.listSpelledBy_of_listOfJson? _ htext) .nil⟩
  · cases h

theorem Block.spelledBy_of_ofHeading? {value : Json} {b : Block}
    (h : Block.ofHeading? value = some b) : b.SpelledBy (.object [("heading", value)]) := by
  unfold Block.ofHeading? at h
  split at h
  · obtain ⟨text, htext, h⟩ := Option.bind_eq_some_iff.mp h
    obtain ⟨level, hlevel, h⟩ := Option.bind_eq_some_iff.mp h
    cases h
    have hfirst := in_of_required? (fun value => Inline.listSpelledBy_of_listOfJson? value) htext
    have hsecond := in_of_required? (fun _ => byte?_eq_some.mp) hlevel
    refine ⟨_, rfl, ?_⟩
    simp [RecordOf, hfirst, hsecond]
  · obtain ⟨text, htext, h⟩ := Option.bind_eq_some_iff.mp h
    obtain ⟨level, hlevel, h⟩ := Option.bind_eq_some_iff.mp h
    cases h
    exact ⟨_, rfl, .cons (Inline.listSpelledBy_of_listOfJson? _ htext)
      (.cons (byte?_eq_some.mp hlevel) .nil)⟩
  · cases h

mutual

theorem Block.spelledBy_of_ofJson? : ∀ (value : Json) {b : Block},
    Block.ofJson? value = some b → b.SpelledBy value
  | .string name, b, h => by
    obtain ⟨node, hnode, rfl⟩ := Option.map_eq_some_iff.mp h
    exact (LeafBlock.spelledBy_of_ofName? hnode).1
  | .object [(name, payload)], b, h => by
    unfold Block.ofJson? at h
    split at h
    · exact Block.spelledBy_of_ofList? payload h
    · exact Block.spelledBy_of_ofQuote? payload h
    · exact Block.spelledBy_of_ofParagraph? h
    · exact Block.spelledBy_of_ofHeading? h
    · obtain ⟨node, hnode, rfl⟩ := Option.map_eq_some_iff.mp h
      exact LeafBlock.spelledBy_of_ofMember? hnode
  | .object [], _, h | .object (_ :: _ :: _), _, h | .null, _, h | .bool _, _, h | .int _, _, h
  | .decimal _, _, h | .array _, _, h => by cases h

theorem Block.listSpelledBy_of_listOfJson? : ∀ (value : Json) {bs : List Block},
    Block.listOfJson? value = some bs → ArrayOf (Block.AllSpelledBy bs) value
  | .array elements, bs, h => ⟨elements, rfl, Block.allSpelledBy_of_allOfJson? elements h⟩
  | .null, _, h | .bool _, _, h | .int _, _, h | .decimal _, _, h | .string _, _, h
  | .object _, _, h => by cases h

theorem Block.allSpelledBy_of_allOfJson? : ∀ (values : List Json) {bs : List Block},
    Block.allOfJson? values = some bs → Block.AllSpelledBy bs values
  | [], bs, h => by
    cases h
    rfl
  | value :: values, bs, h => by
    obtain ⟨c, hc, h⟩ := Option.bind_eq_some_iff.mp h
    obtain ⟨cs, hcs, h⟩ := Option.bind_eq_some_iff.mp h
    cases h
    exact ⟨value, values, rfl, Block.spelledBy_of_ofJson? value hc,
      Block.allSpelledBy_of_allOfJson? values hcs⟩

theorem Block.itemsSpelledBy_of_itemsOfJson? : ∀ (value : Json) {items : List (List Block)},
    Block.itemsOfJson? value = some items → ArrayOf (Block.ItemsSpelledBy items) value
  | .array elements, items, h => ⟨elements, rfl, Block.itemsSpelledBy_of_allItemsOfJson? elements h⟩
  | .null, _, h | .bool _, _, h | .int _, _, h | .decimal _, _, h | .string _, _, h
  | .object _, _, h => by cases h

theorem Block.itemsSpelledBy_of_allItemsOfJson? : ∀ (values : List Json) {items : List (List Block)},
    Block.allItemsOfJson? values = some items → Block.ItemsSpelledBy items values
  | [], items, h => by
    cases h
    rfl
  | value :: values, items, h => by
    obtain ⟨item, hitem, h⟩ := Option.bind_eq_some_iff.mp h
    obtain ⟨others, hothers, h⟩ := Option.bind_eq_some_iff.mp h
    cases h
    exact ⟨value, values, rfl, Block.listSpelledBy_of_listOfJson? value hitem,
      Block.itemsSpelledBy_of_allItemsOfJson? values hothers⟩

theorem Block.spelledBy_of_ofList? : ∀ (value : Json) {b : Block},
    Block.ofList? value = some b → b.SpelledBy (.object [("list", value)])
  | .object members, b, h => by
    obtain ⟨items, hitems, h⟩ := Option.bind_eq_some_iff.mp h
    obtain ⟨type, htype, h⟩ := Option.bind_eq_some_iff.mp h
    cases h
    have hfirst := Block.in_of_itemsMemberOfJson? members hitems
    have hsecond := in_of_required? (fun _ => ListType.spelledBy_of_ofJson?) htype
    refine ⟨_, rfl, ?_⟩
    simp [RecordOf, hfirst, hsecond]
  | .array [first, second], b, h => by
    obtain ⟨items, hitems, h⟩ := Option.bind_eq_some_iff.mp h
    obtain ⟨type, htype, h⟩ := Option.bind_eq_some_iff.mp h
    cases h
    exact ⟨_, rfl, .cons (Block.itemsSpelledBy_of_itemsOfJson? first hitems)
      (.cons (ListType.spelledBy_of_ofJson? htype) .nil)⟩
  | .array [], _, h | .array [_], _, h | .array (_ :: _ :: _ :: _), _, h | .null, _, h | .bool _, _, h
  | .int _, _, h | .decimal _, _, h | .string _, _, h => by cases h

theorem Block.spelledBy_of_ofQuote? : ∀ (value : Json) {b : Block},
    Block.ofQuote? value = some b → b.SpelledBy (.object [("block_quote", value)])
  | .object members, b, h => by
    obtain ⟨blocks, hblocks, rfl⟩ := Option.map_eq_some_iff.mp h
    have hfirst := Block.in_of_blocksMemberOfJson? members hblocks
    refine ⟨_, rfl, ?_⟩
    simp [RecordOf, hfirst]
  | .array [first], b, h => by
    obtain ⟨blocks, hblocks, rfl⟩ := Option.map_eq_some_iff.mp h
    exact ⟨_, rfl, .cons (Block.listSpelledBy_of_listOfJson? first hblocks) .nil⟩
  | .array [], _, h | .array (_ :: _ :: _), _, h | .null, _, h | .bool _, _, h | .int _, _, h
  | .decimal _, _, h | .string _, _, h => by cases h

theorem Block.in_of_itemsMemberOfJson? : ∀ (members : List (String × Json))
    {items : List (List Block)}, Block.itemsMemberOfJson? members = some items →
      (Field.required "items" (ArrayOf (Block.ItemsSpelledBy items))).In members
  | [], _, h => by cases h
  | (key, value) :: members, items, h => by
    unfold Block.itemsMemberOfJson? at h
    split at h
    · rename_i hkey
      exact .inl ⟨value, hkey ▸ List.mem_cons_self, Block.itemsSpelledBy_of_itemsOfJson? value h⟩
    · exact (Block.in_of_itemsMemberOfJson? members h).cons

theorem Block.in_of_blocksMemberOfJson? : ∀ (members : List (String × Json)) {bs : List Block},
    Block.blocksMemberOfJson? members = some bs →
      (Field.required "items" (ArrayOf (Block.AllSpelledBy bs))).In members
  | [], _, h => by cases h
  | (key, value) :: members, bs, h => by
    unfold Block.blocksMemberOfJson? at h
    split at h
    · rename_i hkey
      exact .inl ⟨value, hkey ▸ List.mem_cons_self, Block.listSpelledBy_of_listOfJson? value h⟩
    · exact (Block.in_of_blocksMemberOfJson? members h).cons

end

end MarkdownTree
