import EditorCore.Text.Lines
import EditorCore.Token.Lexer
import EditorCore.Position

/-!
# Documents

An editor asks for the token at a line and a column, while the lexer reads
the buffer in one go and some of its lexemes – white space, comments,
triple-quoted strings – run over many lines. A **document** is the buffer
with both: its lines, and on every line the pieces of the lexemes that lie
there, with their columns.

The pieces come from cutting the lexemes where the text is cut. Lexemes in
order spell the source, so cutting each at its line feeds and joining the
ends of neighbours gives rows that spell the segments of the source; the
carriage return that belongs to a terminator is then dropped from the last
piece of its row, and columns are counted along the row. No piece is empty
and none crosses a line.
-/

namespace EditorCore

/-- **The piece of a token on one line**, between two columns. -/
structure LineToken where
  kind : TokenKind
  text : Text
  start : UInt32
  stop : UInt32
  deriving DecidableEq, Repr

namespace LineToken

/-- What a lookup answers that finds no token. -/
def none : LineToken := ⟨.whitespace, [], 0, 0⟩

/-- Holds of the answer that is no token. -/
def isNone (t : LineToken) : Bool := t.text.isEmpty

/-- The category of the token's kind. -/
def category (t : LineToken) : Category := t.kind.category

end LineToken

namespace Lexeme

/-! ## Rows of lexemes -/

/-- A lexeme of a kind, unless its text is empty. -/
def piece (kind : TokenKind) (text : Text) : List Lexeme :=
  if text.isEmpty then [] else [⟨kind, text⟩]

/-- Joins two sequences of rows, the last of the first to the first of the
second. -/
def joinRows {α : Type} : List (List α) → List (List α) → List (List α)
  | [], rows => rows
  | [row], rows => rows.modifyHead (row ++ ·)
  | row :: more, rows => row :: joinRows more rows

/-- **The rows of a sequence of lexemes**: every lexeme cut at its line
feeds, the pieces gathered line by line. -/
def rows : List Lexeme → List (List Lexeme)
  | [] => [[]]
  | l :: ls => joinRows (l.text.segments.map (piece l.kind)) (rows ls)

/-- A row without the carriage return that may end it. -/
def dropReturn : List Lexeme → List Lexeme
  | [] => []
  | [l] => piece l.kind l.text.dropReturn
  | l :: ls => l :: dropReturn ls

/-- Counts the columns along a row that starts at `column`. -/
def placeRow (column : Nat) : List Lexeme → List LineToken
  | [] => []
  | l :: ls =>
    let stop := column + Text.width l.text
    ⟨l.kind, l.text, .ofNat column, .ofNat stop⟩ :: placeRow stop ls

end Lexeme

/-- The tokens of a text, line by line. -/
def Text.lineTokens (t : Text) : List (List LineToken) :=
  (Lexeme.rows (Lexeme.ofSource t)).map fun row => Lexeme.placeRow 0 (Lexeme.dropReturn row)

/-- **A document**: a buffer with its lines and their tokens. -/
structure Document where
  text : Text
  /-- The lines, without terminators. -/
  lines : List Text
  /-- The tokens of every line. -/
  tokens : List (List LineToken)
  lines_eq : lines = text.lines
  tokens_eq : tokens = text.lineTokens

namespace Document

/-- **The document of a text.** -/
def ofText (text : Text) : Document := ⟨text, text.lines, text.lineTokens, rfl, rfl⟩

/-- A document is determined by its text. -/
theorem eq_ofText (d : Document) : d = ofText d.text := by
  obtain ⟨text, lines, tokens, rfl, rfl⟩ := d
  rfl

/-- The number of lines; at least one. -/
def lineCount (d : Document) : UInt32 := .ofNat d.lines.length

/-- The text of a line without its terminator; empty outside the document. -/
def lineText (d : Document) (line : UInt32) : Text := d.lines.getD line.toNat []

/-- The width of a line. -/
def lineLength (d : Document) (line : UInt32) : UInt32 := .ofNat (d.lineText line).width

/-- The tokens of a line in order; none outside the document. -/
def lineTokens (d : Document) (line : UInt32) : List LineToken := d.tokens.getD line.toNat []

/-- **The token a cursor is at.** A line is read from the left until a token
reaches the column, so a cursor between two tokens is at the left one and
a column past the end is at the last. Nothing is read up to column 0. -/
def tokenAt (d : Document) (p : Position) : LineToken :=
  if p.column = 0 then LineToken.none
  else
    let tokens := d.lineTokens p.line
    (tokens.find? (p.column ≤ ·.stop)).getD (tokens.getLastD LineToken.none)

/-- The text between two columns of a line. -/
def slice (d : Document) (line start stop : UInt32) : Text :=
  (d.lineText line).slice start.toNat stop.toNat

/-- The character right after a position. -/
def charAfter (d : Document) (p : Position) : Option Char :=
  (d.lineText p.line).charAfter p.column.toNat

end Document

end EditorCore
