import EditorCore.Text.Pieces

/-!
# Lines of a text

A text is cut at every line feed, so it has one line more than it has line
feeds and even the empty text has a line. A carriage return at the end of
a line belongs to the terminator and is dropped – one of them, and also on
the last line, where no line feed follows.
-/

namespace EditorCore.Text

/-- The pieces between the line feeds, terminators removed and carriage
returns kept. -/
def segments (t : Text) : List Text := t.pieces '\n'

/-- A segment without the carriage return that may end it. -/
def dropReturn (t : Text) : Text :=
  if t.getLast? = some '\r' then t.dropLast else t

/-- The lines of a text. -/
def lines (t : Text) : List Text := t.segments.map dropReturn

theorem segments_ne_nil (t : Text) : t.segments ≠ [] := pieces_ne_nil '\n' t

end EditorCore.Text
