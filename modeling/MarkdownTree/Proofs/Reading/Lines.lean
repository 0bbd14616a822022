import MarkdownTree.Proofs.Tree.PlainText
import MarkdownTree.Reading.Reader
import Mathlib.Data.List.Chain

/-!
What a text reads as. Splitting it into lines takes a carriage return away only before a newline, and
nothing else of it is lost: the lines joined again are the text with its line ends unified
(`intercalate_lines`), and they are what is between the newlines of that (`lines_eq_splitOn`). Main
statement: `Inline.ofText_splits`.
-/

namespace MarkdownTree

open Mdast (Node)

/-- The text without the carriage returns that stand before a newline. -/
def unifyEnds : List Char → List Char
  | [] => []
  | '\r' :: '\n' :: rest => '\n' :: unifyEnds rest
  | c :: rest => c :: unifyEnds rest

theorem unifyEnds_eq_self {cs : List Char} (h : ¬ ['\r', '\n'] <:+: cs) : unifyEnds cs = cs := by
  fun_induction unifyEnds cs with
  | case1 => rfl
  | case2 rest ih => exact absurd (List.infix_append [] ['\r', '\n'] rest) h
  | case3 c rest hne ih =>
    rw [ih fun hi => h (hi.trans (List.suffix_cons c rest).isInfix)]

theorem lines_ne_nil (cs : List Char) : lines cs ≠ [] := by
  fun_induction lines cs <;> simp

theorem unifyEnds_newline (rest : List Char) : unifyEnds ('\n' :: rest) = '\n' :: unifyEnds rest := by
  rw [unifyEnds]
  exact fun _ h => absurd h (by decide)

theorem intercalate_nil_cons {cs : List (List Char)} (h : cs ≠ []) :
    List.intercalate ['\n'] ([] :: cs) = '\n' :: List.intercalate ['\n'] cs := by
  rw [List.intercalate_cons_of_ne_nil h]
  rfl

/-- **No line is lost.** The lines of a text joined again are the text, the line ends aside. -/
theorem intercalate_lines (cs : List Char) :
    List.intercalate ['\n'] (lines cs) = unifyEnds cs := by
  fun_induction lines cs with
  | case1 => rfl
  | case2 rest ih => rw [intercalate_nil_cons (lines_ne_nil rest), ih, unifyEnds_newline]
  | case3 rest ih => rw [intercalate_nil_cons (lines_ne_nil rest), ih, unifyEnds]
  | case4 c rest _ hne heq ih => exact absurd heq (lines_ne_nil rest)
  | case5 c rest _ hne line more heq ih =>
    rw [List.intercalate_cons_cons_left, ← heq, ih, unifyEnds]
    exact hne

/-- The text with a carriage return put before every newline. -/
def returnEnds (cs : List Char) : List Char :=
  cs.flatMap fun c => if c = '\n' then ['\r', '\n'] else [c]

theorem unifyEnds_returnEnds {cs : List Char} (h : '\r' ∉ cs) : unifyEnds (returnEnds cs) = cs := by
  induction cs with
  | nil => rfl
  | cons c cs ih =>
    obtain ⟨hc, hcs⟩ := not_or.mp (mt List.mem_cons.mpr h)
    rw [returnEnds, List.flatMap_cons]
    by_cases newline : c = '\n'
    · rw [if_pos newline, newline]
      exact congrArg ('\n' :: ·) (ih hcs)
    · rw [if_neg newline, List.singleton_append, unifyEnds]
      · exact congrArg (c :: ·) (ih hcs)
      · exact fun _ e => absurd e.symm hc

/-! ### Lines -/

theorem newline_not_mem_of_mem_lines (cs : List Char) : ∀ line ∈ lines cs, '\n' ∉ line := by
  fun_induction lines cs with
  | case1 => simp
  | case2 rest ih | case3 rest ih => simpa using ih
  | case4 c rest _ hne heq ih => exact absurd heq (lines_ne_nil rest)
  | case5 c rest newline _ line more heq ih =>
    rw [heq, List.forall_mem_cons] at ih
    have first : '\n' ∉ c :: line := by
      rintro (_ | ⟨_, hmem⟩)
      · exact newline rfl
      · exact ih.1 hmem
    exact List.forall_mem_cons.mpr ⟨first, ih.2⟩

/-- A text has one line more than it has newlines. -/
theorem length_lines (cs : List Char) : (lines cs).length = cs.count '\n' + 1 := by
  fun_induction lines cs with
  | case1 => rfl
  | case2 rest ih => rw [List.length_cons, ih, List.count_cons_self]
  | case3 rest ih =>
    rw [List.length_cons, ih, List.count_cons_of_ne (by decide), List.count_cons_self]
  | case4 c rest _ hne heq ih => exact absurd heq (lines_ne_nil rest)
  | case5 c rest newline _ line more heq ih =>
    rw [heq, List.length_cons] at ih
    rw [List.length_cons, ih, List.count_cons_of_ne newline]

/-- The lines of a text are what is between its newlines once its line ends are unified. -/
theorem lines_eq_splitOn (cs : List Char) : lines cs = (unifyEnds cs).splitOn '\n' := by
  rw [← intercalate_lines]
  exact (List.splitOn_intercalate '\n' (newline_not_mem_of_mem_lines cs) (lines_ne_nil cs)).symm

theorem lines_eq_singleton {cs : List Char} (h : '\n' ∉ cs) : lines cs = [cs] := by
  fun_induction lines cs with
  | case1 => rfl
  | case2 rest ih | case3 rest ih => simp at h
  | case4 c rest _ hne heq ih => exact absurd heq (lines_ne_nil rest)
  | case5 c rest _ hne line more heq ih =>
    rw [ih fun hmem => h (List.mem_cons_of_mem c hmem)] at heq
    obtain ⟨rfl, rfl⟩ := List.cons.inj heq
    rfl

/-! ### Inlines -/

theorem mem_intercalate_singleton {α : Type} {sep a : α} {ls : List (List α)}
    (h : a ∈ List.intercalate [sep] ls) : a = sep ∨ ∃ l ∈ ls, a ∈ l := by
  induction ls with
  | nil => cases h
  | cons l ls ih =>
    cases ls with
    | nil => exact .inr ⟨l, List.mem_singleton_self l, by rwa [List.intercalate_singleton] at h⟩
    | cons next ls =>
      rw [List.intercalate_cons_cons, List.mem_append, List.mem_append, List.mem_singleton] at h
      rcases h with (h | rfl) | h
      · exact .inr ⟨l, List.mem_cons_self, h⟩
      · exact .inl rfl
      · rcases ih h with rfl | ⟨l', hl', h⟩
        · exact .inl rfl
        · exact .inr ⟨l', List.mem_cons_of_mem l hl', h⟩

/-- A text is read as soft breaks and as texts that are lines of it. -/
theorem Inline.mem_ofText {text : String} {x : Inline} (h : x ∈ ofText text) :
    x = .softBreak ∨ ∃ line ∈ lines text.toList, line ≠ [] ∧ x = .text (String.ofList line) := by
  rcases mem_intercalate_singleton h with rfl | ⟨l, hl, hx⟩
  · exact .inl rfl
  · obtain ⟨line, hline, rfl⟩ := List.mem_map.mp hl
    unfold ofLine at hx
    split at hx
    · cases hx
    · next hne =>
      exact .inr ⟨line, hline, fun e => hne (List.isEmpty_iff.mpr e), List.mem_singleton.mp hx⟩

theorem Inline.ofText_line {text : String} (hne : text ≠ "") (h : '\n' ∉ text.toList) :
    ofText text = [.text text] := by
  have hne : text.toList ≠ [] := fun e => hne (String.toList_eq_nil_iff.mp e)
  rw [ofText, lines_eq_singleton h, List.map_cons, List.map_nil, List.intercalate_singleton, ofLine,
    if_neg (mt List.isEmpty_iff.mp hne), String.ofList_toList]

/-! ### Plain text -/

theorem Inline.plainTextAll_ofLine (line : List Char) :
    plainTextAll (ofLine line) = String.ofList line := by
  unfold ofLine
  split
  · next h =>
    rw [List.isEmpty_iff.mp h]
    rfl
  · exact plainTextAll_singleton _

theorem Inline.plainTextAll_intercalate (ls : List (List Char)) :
    plainTextAll (List.intercalate [.softBreak] (ls.map ofLine)) =
      String.ofList (List.intercalate ['\n'] ls) := by
  induction ls with
  | nil => rfl
  | cons line ls ih =>
    cases ls with
    | nil =>
      rw [List.map_cons, List.map_nil, List.intercalate_singleton, List.intercalate_singleton,
        plainTextAll_ofLine]
    | cons next ls =>
      rw [List.map_cons] at ih ⊢
      rw [List.map_cons, List.intercalate_cons_cons, List.intercalate_cons_cons,
        plainTextAll_append, plainTextAll_append, plainTextAll_ofLine, plainTextAll_singleton, ih,
        String.ofList_append, String.ofList_append]
      rfl

theorem Inline.plainTextAll_ofText (text : String) :
    plainTextAll (ofText text) = String.ofList (unifyEnds text.toList) := by
  rw [ofText, plainTextAll_intercalate, intercalate_lines]

/-- Texts are read alike just if they are the same up to their line ends. -/
theorem Inline.ofText_eq_iff {text other : String} :
    ofText text = ofText other ↔ unifyEnds text.toList = unifyEnds other.toList := by
  constructor
  · intro h
    have plain := congrArg plainTextAll h
    rw [plainTextAll_ofText, plainTextAll_ofText] at plain
    exact String.ofList_injective plain
  · intro h
    rw [ofText, ofText, lines_eq_splitOn, h, ← lines_eq_splitOn]

/-! ### Soft breaks -/

namespace Inline

theorem count_softBreak_ofLine (line : List Char) : (ofLine line).count .softBreak = 0 := by
  unfold ofLine
  split <;> rfl

/-- There is one soft break less than there are lines. -/
theorem count_softBreak_intercalate {ls : List (List Char)} (h : ls ≠ []) :
    (List.intercalate [.softBreak] (ls.map ofLine)).count .softBreak + 1 = ls.length := by
  induction ls with
  | nil => exact absurd rfl h
  | cons line ls ih =>
    cases ls with
    | nil =>
      rw [List.map_singleton, List.intercalate_singleton, count_softBreak_ofLine]
      rfl
    | cons next ls =>
      have ih := ih (List.cons_ne_nil next ls)
      rw [List.map_cons] at ih ⊢
      rw [List.map_cons, List.intercalate_cons_cons, List.count_append, List.count_append,
        count_softBreak_ofLine, List.count_singleton_self, List.length_cons, ← ih]
      omega

/-- The two inlines are not both texts. -/
def Parted (x y : Inline) : Prop := ∀ literal next, x = .text literal → y ≠ .text next

theorem parted_softBreak_left (y : Inline) : Parted .softBreak y := nofun

theorem parted_softBreak_right (x : Inline) : Parted x .softBreak := fun _ _ _ => nofun

theorem isChain_ofLine (line : List Char) : (ofLine line).IsChain Parted := by
  unfold ofLine
  split
  · exact .nil
  · exact .singleton _

/-- Of two lines one after the other, the texts are parted by the soft break between them. -/
theorem isChain_intercalate (ls : List (List Char)) :
    (List.intercalate [.softBreak] (ls.map ofLine)).IsChain Parted := by
  induction ls with
  | nil => exact .nil
  | cons line ls ih =>
    cases ls with
    | nil =>
      rw [List.map_singleton, List.intercalate_singleton]
      exact isChain_ofLine line
    | cons next ls =>
      rw [List.map_cons] at ih ⊢
      rw [List.map_cons, List.intercalate_cons_cons]
      refine ((isChain_ofLine line).append (.singleton .softBreak) ?_).append ih ?_
      · intro x _ y hy
        obtain rfl := Option.some.inj hy
        exact parted_softBreak_right x
      · intro x hx y _
        rw [List.getLast?_concat] at hx
        obtain rfl := Option.some.inj hx
        exact parted_softBreak_left y

end Inline

/-! ### Main statement -/

/-- What a text node is read as stands after what the nodes before it are read as, which stays as it is. -/
theorem Reader.inlines_text (r : Reader) (before after : List Node) (text : String)
    (position : Option Mdast.Position) :
    r.inlines (before ++ .leaf (.text text) position :: after) = (do
      let out ← r.inlines before
      let rest ← r.inlines after
      pure (out ++ Inline.ofText text ++ rest)) := by
  induction before with
  | nil => simp [Reader.inlines, Reader.inline]
  | cons node before ih => simp [Reader.inlines, ih]

/-- **A text is read as its lines.** A text node adds to the inlines read before it, and changes nothing of
them. What it adds are texts, each a part of a line that is not empty, and soft breaks: no two texts next to
each other, and a soft break for every newline. The texts joined, with a newline for each soft break, are the
text without the carriage returns before newlines; and nothing more of the text counts, so that a text
without carriage returns is read as it is with one before every newline. -/
theorem Inline.ofText_splits (text : String) :
    (∀ (r : Reader) (before after : List Node) (position : Option Mdast.Position),
      r.inlines (before ++ .leaf (.text text) position :: after) = (do
        let out ← r.inlines before
        let rest ← r.inlines after
        pure (out ++ ofText text ++ rest))) ∧
    (∀ x ∈ ofText text, x = .softBreak ∨
      ∃ line, x = .text line ∧ line ≠ "" ∧ '\n' ∉ line.toList) ∧
    (∀ line next, ¬ [.text line, .text next] <:+: ofText text) ∧
    (ofText text).count .softBreak = text.toList.count '\n' ∧
    plainTextAll (ofText text) = String.ofList (unifyEnds text.toList) ∧
    (∀ other, ofText text = ofText other ↔ unifyEnds text.toList = unifyEnds other.toList) ∧
    ('\r' ∉ text.toList → ofText (String.ofList (returnEnds text.toList)) = ofText text) := by
  refine ⟨fun r before after position => r.inlines_text before after text position, ?_, ?_, ?_,
    plainTextAll_ofText text, fun other => ofText_eq_iff, ?_⟩
  · intro x hx
    rcases mem_ofText hx with rfl | ⟨line, hline, hne, rfl⟩
    · exact .inl rfl
    · refine .inr ⟨String.ofList line, rfl, mt String.ofList_eq_empty_iff.mp hne, ?_⟩
      rw [String.toList_ofList]
      exact newline_not_mem_of_mem_lines _ line hline
  · rintro line next ⟨before, after, h⟩
    have parted := isChain_intercalate (lines text.toList)
    rw [← ofText, ← h, List.append_assoc, List.cons_append] at parted
    exact (List.isChain_append_cons_cons.mp parted).2.1 line next rfl rfl
  · have breaks := count_softBreak_intercalate (lines_ne_nil text.toList)
    rw [length_lines] at breaks
    exact Nat.succ.inj breaks
  · intro plain
    rw [ofText_eq_iff, String.toList_ofList, unifyEnds_returnEnds plain, unifyEnds_eq_self]
    exact fun h => plain (h.subset List.mem_cons_self)

/-- An empty line between two others, with line ends of either kind. -/
theorem Inline.ofText_splits_emptyLine :
    let text := "a\n\nb"
    '\r' ∉ text.toList ∧ String.ofList (returnEnds text.toList) = "a\r\n\r\nb" ∧
    ofText "a\r\n\r\nb" = ofText text ∧
    ofText text = [.text "a", .softBreak, .softBreak, .text "b"] := by
  intro text
  have plain : '\r' ∉ text.toList := by decide
  have returned : String.ofList (returnEnds text.toList) = "a\r\n\r\nb" := by decide
  obtain ⟨-, -, -, -, -, -, same⟩ := Inline.ofText_splits text
  exact ⟨plain, returned, returned ▸ same plain, by decide⟩

/-- Only the carriage return right before a newline belongs to the line end. -/
example : Inline.ofText "\r\r\n\r" = [.text "\r", .softBreak, .text "\r"] := by decide

end MarkdownTree
