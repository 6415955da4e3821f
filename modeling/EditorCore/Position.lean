/-!
# Positions

A position in a buffer is a line and a column, both counted from zero, the
column in UTF-16 code units. Both are machine words, as editors hand them
over: a position may lie anywhere, also outside the buffer, and arithmetic
on columns is arithmetic on words. Positions are ordered by line, then by
column.
-/

namespace EditorCore

/-- A line and a UTF-16 column, both from zero. -/
structure Position where
  line : UInt32
  column : UInt32
  deriving DecidableEq, Repr

namespace Position

/-- By line, then by column. -/
instance : LT Position where
  lt p q := p.line < q.line ∨ p.line = q.line ∧ p.column < q.column

/-- By line, then by column. -/
instance : LE Position where
  le p q := p.line < q.line ∨ p.line = q.line ∧ p.column ≤ q.column

instance (p q : Position) : Decidable (p < q) :=
  inferInstanceAs (Decidable (_ ∨ _))

instance (p q : Position) : Decidable (p ≤ q) :=
  inferInstanceAs (Decidable (_ ∨ _))

/-- The later of two positions. -/
instance : Max Position where
  max p q := if p ≤ q then q else p

/-- The earlier of two positions. -/
instance : Min Position where
  min p q := if p ≤ q then p else q

end Position

end EditorCore
