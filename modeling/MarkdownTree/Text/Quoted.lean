import MarkdownTree.Text.Range

/-!
Quoted text: a text between double quotes, in which every character that would break the quotes or
could not be told apart on a screen is written by an escape.
-/

namespace MarkdownTree.Text

/-- A character with no visible form of its own: it stands for itself only in an escape. -/
def isHidden (c : Char) : Bool :=
  if c.toNat < 0x80 then c.toNat < 0x20 || c.toNat == 0x7f
  else inRanges blanks c.toNat || inRanges marks c.toNat

/-- The code point of a character in hexadecimal, between braces. -/
def codeEscape (c : Char) : List Char :=
  ['\\', 'u', '\x7b'] ++ Nat.toDigits 16 c.toNat ++ ['\x7d']

/-- A character as it is written between quotes. -/
def escape (c : Char) : List Char :=
  match c with
  | '"' => ['\\', '"']
  | '\\' => ['\\', '\\']
  | '\n' => ['\\', 'n']
  | '\r' => ['\\', 'r']
  | '\t' => ['\\', 't']
  | '\x00' => ['\\', '0']
  | c => if isHidden c then codeEscape c else [c]

/-- A text between quotes. -/
def quoted (text : String) : String :=
  "\"" ++ String.ofList (text.toList.flatMap escape) ++ "\""

end MarkdownTree.Text
