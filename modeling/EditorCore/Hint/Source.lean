import EditorCore.Document

/-!
# What a command sees of a buffer

Hints and key commands read a buffer through two questions: which token a
cursor is at, and what a line says. `TokenSource` is whatever answers them
– a document does, but nothing below assumes the answers to fit together.
-/

namespace EditorCore

/-- A token as a cursor sees it: its category, its text on the line and its
columns. -/
structure TokenView where
  category : Category
  text : Text
  start : UInt32
  stop : UInt32
  deriving DecidableEq, Repr

namespace TokenView

/-- What a cursor sees where there is no token. -/
def none : TokenView := ⟨.other, [], 0, 0⟩

end TokenView

/-- What a cursor sees of a token of a document. -/
def LineToken.view (t : LineToken) : TokenView := ⟨t.category, t.text, t.start, t.stop⟩

/-- **Read access to the buffer being edited.** -/
structure TokenSource where
  /-- The token a cursor is at: the one that spans or ends at the column. -/
  tokenAt : Position → TokenView
  /-- The text of a line without its terminator. -/
  lineText : UInt32 → Text

namespace TokenSource

/-- The character right after a position. -/
def charAfter (s : TokenSource) (p : Position) : Option Char :=
  (s.lineText p.line).charAfter p.column.toNat

end TokenSource

/-- A document answers for its own lines. -/
def Document.source (d : Document) : TokenSource := ⟨fun p => (d.tokenAt p).view, d.lineText⟩

end EditorCore
