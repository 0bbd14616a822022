import MarkdownTree.Tree

/-!
Texts of several lines as inlines: a text node for each line that is not empty, and a soft break
between two lines.
-/

namespace MarkdownTree

/-- The lines of a text, without their ends. A line ends in a newline or in a carriage return and a
newline; what follows the last end is a line too. -/
def lines : List Char → List (List Char)
  | [] => [[]]
  | '\n' :: rest => [] :: lines rest
  | '\r' :: '\n' :: rest => [] :: lines rest
  | c :: rest =>
    match lines rest with
    | [] => [[c]]
    | line :: more => (c :: line) :: more

/-- A text node, or nothing for an empty text. -/
def Inline.ofLine (line : List Char) : List Inline :=
  if line.isEmpty then [] else [.text (String.ofList line)]

/-- The lines of a text with a soft break between two. -/
def Inline.ofText (text : String) : List Inline :=
  List.intercalate [.softBreak] ((lines text.toList).map Inline.ofLine)

end MarkdownTree
