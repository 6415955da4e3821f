import EditorCore.Text.Columns

/-!
# Blanks of a text

White space in the sense of the Unicode property `White_Space`: the
separators of every script, not only those of ASCII.
-/

namespace EditorCore

/-- The property `White_Space`. -/
def isBlank (c : Char) : Bool :=
  ('\t' ≤ c && c ≤ '\r') || c == ' ' || c == '\u0085' || c == '\u00a0' || c == '\u1680'
    || ('\u2000' ≤ c && c ≤ '\u200a') || c == '\u2028' || c == '\u2029' || c == '\u202f'
    || c == '\u205f' || c == '\u3000'

/-- A text without its leading blanks. -/
def Text.dropBlanks (t : Text) : Text := t.dropWhile isBlank

end EditorCore
