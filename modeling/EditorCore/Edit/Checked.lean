/-!
# Checked arithmetic

Columns, widths and tab sizes are words, and a sum of two words need not be one. Where
nothing else keeps a sum small, it is computed with a check: there is no result if it would
leave the words, and the whole computation fails then.
-/

namespace EditorCore

namespace Checked

/-- The sum of two words, if it is one. -/
def add (a b : UInt32) : Option UInt32 :=
  if a.toNat + b.toNat < UInt32.size then some (a + b) else none

/-- The difference of two words, if it is one. -/
def sub (a b : UInt32) : Option UInt32 := if b ≤ a then some (a - b) else none

end Checked

end EditorCore
