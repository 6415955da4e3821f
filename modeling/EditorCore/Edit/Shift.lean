import EditorCore.Text.Columns

/-!
# Shifts along a line

The selections of a plan refer to the buffer after its edits, so a column
moves by what the edits before it add on its line, or remove. A plan keeps
a **log** of these widths line by line; only the sums matter.
-/

namespace EditorCore

/-- The width of a character as a column count. -/
def columnWidth (c : Char) : UInt32 := .ofNat (units c)

/-- Widths, each with the line it belongs to. -/
abbrev ShiftLog := List (UInt32 × UInt32)

/-- The columns the log has for a line. -/
def ShiftLog.on (log : ShiftLog) (line : UInt32) : UInt32 :=
  match log with
  | [] => 0
  | (l, width) :: rest => if l = line then ShiftLog.on rest line + width else ShiftLog.on rest line

end EditorCore
