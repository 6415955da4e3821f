import EditorCore.Text.Columns

/-!
# Searching a text

The first occurrence of a text within another, and words at the start of a
line. A word ends before a character that cannot continue it, where only
the letters and digits of ASCII and the underscore can.
-/

namespace EditorCore

/-- The characters that continue a word. -/
def isWordChar (c : Char) : Bool := c.isAlphanum || c == '_'

namespace Text

/-- **The first occurrence** of `part`, as the number of characters before
it. -/
def find? (t part : Text) : Option Nat :=
  if part.isPrefixOf t then some 0
  else match t with
    | [] => none
    | _ :: rest => (find? rest part).map (· + 1)

/-- The column of the first occurrence of `part` in a line. -/
def columnOf? (line part : Text) : Option Nat :=
  (line.find? part).map fun n => width (line.take n)

/-- The text after `word`, when the text starts with it. -/
def dropWord? (t word : Text) : Option Text :=
  if word.isPrefixOf t then some (t.drop word.length) else none

/-- The text starts with `word`, and the word ends there. -/
def startsWithWord (t word : Text) : Bool :=
  (t.dropWord? word).any fun rest => !rest.head?.any isWordChar

end Text

end EditorCore
