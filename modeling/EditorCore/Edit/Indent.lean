import EditorCore.Edit.Checked
import EditorCore.Edit.Plan
import EditorCore.Hint.Source

/-!
# Indentation

`Tab` and `Shift-Tab` change the leading blanks of the lines that the
selections touch. The width of the blanks is measured in columns, a tab
running to the next tab stop; one step more or less is the new width, and
the line gets the **canonical** blanks of that width: spaces, or as many
tabs as fit and then spaces.

A selection of several lines that ends in column 0 does not touch its last
line. A cursor among the old blanks moves to the end of the new ones, and
one after them keeps its distance from the text.
-/

namespace EditorCore

/-- How lines are indented. -/
structure IndentSettings where
  /-- The columns between tab stops. -/
  tabSize : UInt32 := 2
  /-- The columns of a step. -/
  indentUnit : UInt32 := 2
  /-- Blanks are made of tabs where they fit. -/
  withTabs : Bool := false
  deriving DecidableEq, Repr

/-- Which way lines move. -/
inductive IndentDirection
  | more
  | less
  deriving DecidableEq, Repr

/-! ## Blanks -/

/-- The characters that indent a line. -/
def isIndent (c : Char) : Bool := c == ' ' || c == '\t'

/-- The blanks a line starts with. -/
def Text.indentation (line : Text) : Text := line.takeWhile isIndent

/-- The column after one more blank. The sum with the tab size comes first. -/
def advance (tabSize column : UInt32) (c : Char) : Option UInt32 :=
  if c = '\t' then do
    let sum ← Checked.add column tabSize
    Checked.sub sum (column % tabSize)
  else Checked.add column 1

/-- **The width of leading blanks** in columns. -/
def indentationWidth (tabSize : UInt32) (blanks : Text) : Option UInt32 :=
  blanks.foldlM (advance tabSize) 0

/-- **The canonical blanks of a width.** -/
def canonicalBlanks (tabSize : UInt32) (withTabs : Bool) (width : UInt32) : Text :=
  if withTabs then
    List.replicate (width / tabSize).toNat '\t' ++ List.replicate (width % tabSize).toNat ' '
  else List.replicate width.toNat ' '

/-! ## Lines -/

/-- The first line a selection touches. -/
def Selection.firstLine (s : Selection) : UInt32 := s.start.line

/-- The last line a selection touches. -/
def Selection.lastLine (s : Selection) : UInt32 :=
  if s.stop.column = 0 ∧ s.start.line < s.stop.line then s.stop.line - 1 else s.stop.line

/-- The lines a selection touches, in order. -/
def Selection.lines (s : Selection) : List UInt32 :=
  (List.range' s.firstLine.toNat (s.lastLine.toNat + 1 - s.firstLine.toNat)).map .ofNat

/-- **The lines some selection touches**, in order and each once. -/
def touchedLines (ss : List Selection) : List UInt32 :=
  ((ss.flatMap (·.lines)).mergeSort (· ≤ ·)).eraseReps

/-- New blanks for a line, and how many characters they replace. -/
structure Reindent where
  line : UInt32
  oldLength : UInt32
  blanks : Text
  deriving DecidableEq, Repr

namespace Reindent

/-- The number of new blanks. -/
def newLength (r : Reindent) : UInt32 := .ofNat r.blanks.length

/-- The edit that replaces the blanks. -/
def toEdit (r : Reindent) : TextEdit := ⟨⟨r.line, 0⟩, ⟨r.line, r.oldLength⟩, r.blanks⟩

end Reindent

/-- The width a line gets. -/
def IndentDirection.target (direction : IndentDirection) (settings : IndentSettings)
    (width : UInt32) : Option UInt32 :=
  match direction with
  | .more => Checked.add width settings.indentUnit
  | .less => return if settings.indentUnit ≤ width then width - settings.indentUnit else 0

/-- **What becomes of a line**: nothing when its blanks are already as they
are to be. -/
def reindent? (source : TokenSource) (settings : IndentSettings) (direction : IndentDirection)
    (line : UInt32) : Option (Option Reindent) := do
  let old := (source.lineText line).indentation
  let tabSize := max settings.tabSize 1
  let width ← indentationWidth tabSize old
  let width ← direction.target settings width
  let new := canonicalBlanks tabSize settings.withTabs width
  return if new = old then none else some ⟨line, .ofNat old.length, new⟩

/-- Where a position of a line moves when its blanks change. -/
def shiftPosition (changes : List Reindent) (p : Position) : Option Position :=
  match changes.find? (·.line = p.line) with
  | none => return p
  | some r =>
    if p.column ≤ r.oldLength then return ⟨p.line, r.newLength⟩
    else do
      let rest ← Checked.sub p.column r.oldLength
      let column ← Checked.add rest r.newLength
      return ⟨p.line, column⟩

/-- **Indents or unindents the lines the selections touch**, unless a sum is no word. -/
def indent (source : TokenSource) (ss : List Selection) (settings : IndentSettings)
    (direction : IndentDirection) : Option KeyOutcome := do
  let lines ← (touchedLines ss).mapM (reindent? source settings direction)
  let changes := lines.filterMap id
  let selections ← (Selection.sortByStart ss).mapM fun s => do
    let anchor ← shiftPosition changes s.anchor
    let head ← shiftPosition changes s.head
    return ⟨anchor, head⟩
  return .edit ⟨changes.map (·.toEdit), selections⟩

end EditorCore
