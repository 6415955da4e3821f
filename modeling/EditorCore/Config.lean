import EditorCore.Edit.Indent

/-!
# Configuration

What a user can set: how the editor looks and indents, and whether and how
it talks to the hint panel. Every setting has a default, and a tab is
always at least one column wide.
-/

namespace EditorCore

/-- The color theme. -/
inductive Theme
  | dark
  | light
  deriving DecidableEq, Repr

namespace Theme

/-- The other theme. -/
def toggled : Theme → Theme
  | dark => light
  | light => dark

/-- The name of a theme. -/
def name : Theme → Text
  | dark => "dark".toList
  | light => "light".toList

/-- The theme of a name. -/
def ofName? (name : Text) : Option Theme :=
  if name = dark.name then some dark
  else if name = light.name then some light
  else none

end Theme

/-- How the editor looks and indents. -/
structure EditorSettings where
  theme : Theme := .dark
  /-- The columns between tab stops. -/
  tabSize : UInt32 := 2
  /-- The columns of an indentation step. -/
  indentUnit : UInt32 := 2
  indentWithTabs : Bool := false
  lineNumbers : Bool := true
  matchBrackets : Bool := true
  deriving DecidableEq, Repr

/-- How the editor talks to the hint panel. -/
structure HintSettings where
  /-- Cursor moves are reported. -/
  enabled : Bool := true
  /-- The import boundary follows the buffer, rather than reports alone. -/
  deriveImportBoundary : Bool := false
  deriving DecidableEq, Repr

/-- **The configuration**, with the path of the file it came from. -/
structure Config where
  path : Option Text := none
  editor : EditorSettings := {}
  hints : HintSettings := {}
  deriving DecidableEq, Repr

namespace Config

/-- The settings that indentation depends on. -/
def indentSettings (c : Config) : IndentSettings :=
  ⟨c.editor.tabSize, c.editor.indentUnit, c.editor.indentWithTabs⟩

/-- Gives a tab at least one column. -/
def widenTab (c : Config) : Config :=
  { c with editor := { c.editor with tabSize := max c.editor.tabSize 1 } }

end Config

/-- Why the defaults stand in for a configuration file. -/
inductive ConfigWarning
  /-- Its contents are no configuration. -/
  | malformed
  /-- It could not be read. -/
  | unreadable
  deriving DecidableEq, Repr

end EditorCore
