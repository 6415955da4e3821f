import EditorCore.Text.Pieces

/-!
# Paths

A path is a text of segments with a `/` between any two of them. A path
that starts with a `/` has an empty first segment and is absolute; empty
segments and `.` otherwise stay where they are, and `..` goes up. Paths and
the names in them have a greatest size.
-/

namespace EditorCore.Text

/-- The segments of a path. -/
def pathSegments (path : Text) : List Text := path.pieces '/'

/-- A segment stays where it is. -/
def isIdle (segment : Text) : Bool := segment = [] || segment = ['.']

/-- A segment goes up. -/
def isUp (segment : Text) : Bool := segment = ['.', '.']

/-- The bytes of the longest name. -/
def maxNameSize : Nat := 255

/-- The bytes of the longest path. -/
def maxPathSize : Nat := 4095

/-- A path from a directory. -/
def inDirectory (directory name : Text) : Text :=
  if directory = [] ∨ directory.getLast? = some '/' then directory ++ name
  else directory ++ ['/'] ++ name

/-- **The name that a path ends in**, segments that stay where they are left
aside; a path that ends by going up has none. -/
def fileName? (path : Text) : Option Text :=
  ((path.pathSegments.filter (!·.isIdle)).getLast?).filter (!·.isUp)

end EditorCore.Text
