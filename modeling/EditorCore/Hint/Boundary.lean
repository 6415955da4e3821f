/-!
# The import boundary

The hint panel follows where the imports of the buffer end and reports the
first line after them. The boundary remembers the last report; it starts
with no line inside.
-/

namespace EditorCore

/-- **The first line after the imports**, as last reported. -/
structure ImportBoundary where
  endLine : UInt32 := 0
  deriving DecidableEq, Repr

namespace ImportBoundary

/-- The boundary with no line inside. -/
def empty : ImportBoundary := {}

/-- The boundary before `line`. -/
def upTo (line : UInt32) : ImportBoundary := ⟨line⟩

/-- Takes a new report; the last one holds. -/
def update (_ : ImportBoundary) (line : UInt32) : ImportBoundary := ⟨line⟩

/-- A line lies among the imports. -/
def contains (b : ImportBoundary) (line : UInt32) : Bool := line < b.endLine

end ImportBoundary

end EditorCore
