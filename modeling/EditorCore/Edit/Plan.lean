import EditorCore.Selection
import EditorCore.Text.Lines

/-!
# Edit plans

A command does not touch the buffer: it plans **edits**, replacements of
the text between two positions of the buffer as it is, and the selections
that there are to be afterwards. Edits come in ascending order; they may
touch, and several insertions at one position land in the order of the
plan, but none may start before the one before it ends.

A position is found in the buffer by its line and then by its column: a
column past the end of its line, or inside a character, is clamped as the
line clamps it, and a line past the last is the end of the buffer. Edits
are checked before any is made, and then made from the last to the first,
so that no edit moves the text another one refers to.
-/

namespace EditorCore

namespace Text

/-- The text from the start of a line on; `none` where there is no such
line. -/
def fromLine? : Text → Nat → Option Text
  | t, 0 => some t
  | [], _ + 1 => none
  | c :: t, n + 1 => if c = '\n' then fromLine? t n else fromLine? t (n + 1)

/-- The first line of a text, without its terminator. -/
def firstLine (t : Text) : Text := dropReturn (t.takeWhile (· != '\n'))

/-- **The byte of a position.** -/
def offset (t : Text) (p : Position) : Nat :=
  match t.fromLine? p.line.toNat with
  | none => t.byteSize
  | some rest => t.byteSize - rest.byteSize + rest.firstLine.byteOffset p.column.toNat

end Text

/-- The replacement of the text between two positions. -/
structure TextEdit where
  start : Position
  stop : Position
  newText : Text
  deriving DecidableEq, Repr

namespace TextEdit

/-- Puts a text at a position. -/
def insert (p : Position) (text : Text) : TextEdit := ⟨p, p, text⟩

/-- Removes the text between two positions. -/
def delete (start stop : Position) : TextEdit := ⟨start, stop, []⟩

end TextEdit

/-- The replacement of the bytes from `start` to `stop`. -/
structure Splice where
  start : Nat
  stop : Nat
  newText : Text
  deriving DecidableEq, Repr

namespace Splice

/-- Makes the replacement. -/
def replace (s : Splice) (t : Text) : Text :=
  t.takeBytes s.start ++ s.newText ++ t.dropBytes s.stop

end Splice

/-- **The bytes an edit replaces.** An edit whose end comes before its start
replaces nothing, at its start. -/
def TextEdit.locate (t : Text) (e : TextEdit) : Splice :=
  let start := t.offset e.start
  ⟨start, max start (t.offset e.stop), e.newText⟩

/-- Why a plan cannot be applied. -/
inductive EditError
  /-- The edit that starts here does so before the one before it ends. -/
  | overlapping (start : Position)
  deriving DecidableEq, Repr

/-- The wording of the error. -/
def EditError.message : EditError → String
  | overlapping p => s!"edit at {p.line}:{p.column} overlaps the previous edit"

/-- **Edits in ascending order, and the selections after them.** -/
structure EditPlan where
  edits : List TextEdit
  selections : List Selection
  deriving DecidableEq, Repr

namespace EditPlan

/-- The first edit that starts before byte `stop` or before the end of the
edit before it. -/
def overlap? (t : Text) (stop : Nat) : List TextEdit → Option Position
  | [] => none
  | e :: es =>
    let s := e.locate t
    if s.start < stop then some e.start else overlap? t s.stop es

/-- **The buffer after the edits**, unless two of them overlap. -/
def apply (plan : EditPlan) (t : Text) : Except EditError Text :=
  match overlap? t 0 plan.edits with
  | some p => .error (.overlapping p)
  | none => .ok ((plan.edits.map (·.locate t)).foldr Splice.replace t)

end EditPlan

/-- What a key command answers. -/
inductive KeyOutcome
  /-- The key is left to the editor. -/
  | pass
  /-- The plan is to be applied. -/
  | edit (plan : EditPlan)
  deriving DecidableEq, Repr

end EditorCore
