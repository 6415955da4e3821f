/-!
# Columns and bytes of a text

An editor addresses a line by **columns**, counted in UTF-16 code units,
and a file by **bytes**, counted in UTF-8. Both are sums of a size per
character, so both are one notion here: a `size : Char → Nat`, the
`measure` of a text, and `fit`, the number of leading characters whose
measure stays within a budget.

A column inside a character of two units, or past the end of the line, is
no position between two characters. `fit` settles both the same way: it
stops before the first character that does not fit, which clamps the one
to the start of its character and the other to the end of the line.
-/

namespace EditorCore

/-- The characters of a buffer, a line or a token. -/
abbrev Text := List Char

/-- UTF-16 code units of a character: one in the basic plane, two beyond. -/
def units (c : Char) : Nat := if c.toNat < 0x10000 then 1 else 2

theorem units_pos (c : Char) : 0 < units c := by
  unfold units; split <;> decide

theorem units_le_two (c : Char) : units c ≤ 2 := by
  unfold units; split <;> decide

namespace Text

/-! ## Measures -/

/-- The sum of the sizes of the characters. -/
def measure (size : Char → Nat) : Text → Nat
  | [] => 0
  | c :: t => size c + measure size t

/-- **The characters within a budget**: how many leading characters have a
measure of at most `budget` together. -/
def fit (size : Char → Nat) : Text → Nat → Nat
  | [], _ => 0
  | c :: t, budget =>
    if size c ≤ budget then fit size t (budget - size c) + 1 else 0

@[simp] theorem measure_nil (size : Char → Nat) : measure size [] = 0 := rfl

@[simp] theorem measure_cons (size : Char → Nat) (c : Char) (t : Text) :
    measure size (c :: t) = size c + measure size t := rfl

@[simp] theorem measure_append (size : Char → Nat) (s t : Text) :
    measure size (s ++ t) = measure size s + measure size t := by
  induction s with
  | nil => simp
  | cons c s ih => simp [ih, Nat.add_assoc]

theorem fit_le_length (size : Char → Nat) (t : Text) (budget : Nat) :
    fit size t budget ≤ t.length := by
  induction t generalizing budget with
  | nil => simp [fit]
  | cons c t ih => unfold fit; split <;> simp [ih]

/-- What fits stays within the budget. -/
theorem measure_take_fit_le (size : Char → Nat) (t : Text) (budget : Nat) :
    measure size (t.take (fit size t budget)) ≤ budget := by
  induction t generalizing budget with
  | nil => simp
  | cons c t ih =>
    unfold fit
    split
    · have := ih (budget - size c)
      simp; omega
    · simp

/-! ## Columns -/

/-- The width of a text in columns. -/
def width (t : Text) : Nat := t.measure units

/-- The number of UTF-8 bytes of a text. -/
def byteSize (t : Text) : Nat := t.measure Char.utf8Size

/-- The number of characters of a line before a column. -/
def index (line : Text) (column : Nat) : Nat := line.fit units column

/-- The byte at which a column of a line starts. -/
def byteOffset (line : Text) (column : Nat) : Nat :=
  byteSize (line.take (line.index column))

/-- The column at which a byte of a line lies. -/
def columnAt (line : Text) (byte : Nat) : Nat :=
  width (line.take (line.fit Char.utf8Size byte))

/-- The text between two columns of a line; empty when `stop` lies before
`start`. -/
def slice (line : Text) (start stop : Nat) : Text :=
  (line.take (line.index stop)).drop (line.index start)

/-- The character right after a column. -/
def charAfter (line : Text) (column : Nat) : Option Char :=
  (line.drop (line.index column)).head?

/-- The text before a byte. -/
def takeBytes (t : Text) (byte : Nat) : Text := t.take (t.fit Char.utf8Size byte)

/-- The text from a byte on. -/
def dropBytes (t : Text) (byte : Nat) : Text := t.drop (t.fit Char.utf8Size byte)

end Text

end EditorCore
