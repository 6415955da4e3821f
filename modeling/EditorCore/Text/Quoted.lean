import EditorCore.Text.Extend
import EditorCore.Text.Printable

/-!
# Quoted texts

A text between double quotes that shows every character for what it is.
The quote and the backslash are escaped by a backslash, a few control
characters have a letter, and whatever would not be seen – the unprintable,
and what is drawn on the character before it – is given by its code point.
So a quoted text never runs over a line.
-/

namespace EditorCore.Text

/-- A character by its code point, in lower-case hexadecimal. -/
def codePointEscape (c : Char) : Text :=
  ['\\', 'u', '{'] ++ Nat.toDigits 16 c.toNat ++ ['}']

/-- A character as it is shown. -/
def quoteChar (c : Char) : Text :=
  match c with
  | '\x00' => ['\\', '0']
  | '\t' => ['\\', 't']
  | '\r' => ['\\', 'r']
  | '\n' => ['\\', 'n']
  | '\\' => ['\\', '\\']
  | '"' => ['\\', '"']
  | c => if isExtend c || !isPrintable c then codePointEscape c else [c]

/-- **A text between quotes.** -/
def quoted (t : Text) : Text := ['"'] ++ t.flatMap quoteChar ++ ['"']

end EditorCore.Text
