import EditorCore.Config
import EditorCore.Toml.Parse

/-!
# The configuration format

A configuration is a TOML document with two sections, one per group of
settings. Sections and settings may be left out and keep their defaults
then; keys of no meaning are passed over. A section may also be an array of
its settings in their order.

Reading takes all of a document or nothing: a single setting of the wrong
type or out of range makes it no configuration, and so does the value of a
key passed over that is out of every range. Only what an array has beyond
the settings is not looked at. The written form lists every setting, so
that reading it gives the configuration back.
-/

namespace EditorCore

namespace Toml

/-! ## Settings -/

/-- A boolean setting. -/
def toBool? : Toml → Option Bool
  | .boolean b => some b
  | _ => none

/-- A setting that is a word. -/
def toWord? : Toml → Option UInt32
  | .integer (some n) => if 0 ≤ n ∧ n < UInt32.size then some (.ofNat n.toNat) else none
  | _ => none

/-- A theme: its name, or a table whose only key is its name, with nothing
in it. -/
def toTheme? : Toml → Option Theme
  | .string s => Theme.ofName? s
  | .table _ [(name, .table _ [])] => Theme.ofName? name
  | .table _ [(name, .array _ [])] => Theme.ofName? name
  | _ => none

/-- **The settings of a section**, in the order of `names`, each where it is
given; `none` when the value is no section. A table gives them by name, and
an array in order; a date is a section without any. -/
def settings? (names : List Text) : Toml → Option (List (Option Toml))
  | .table _ entries =>
    if (entries.filter fun (key, _) => !names.contains key).all fun (_, v) => v.fits then
      some (names.map (List.lookup · entries))
    else none
  | .array _ items => some ((List.range names.length).map (items[·]?))
  | .dateTime _ => some (names.map fun _ => none)
  | _ => none

/-- A setting, or its default. -/
def setting? {α : Type} (read : Toml → Option α) (default : α) : Option Toml → Option α
  | none => some default
  | some v => read v

end Toml

namespace EditorSettings

/-- The names of the settings, in order. -/
def names : List Text :=
  ["theme", "tab_size", "indent_unit", "indent_with_tabs", "line_numbers",
    "match_brackets"].map String.toList

/-- Reads the section. -/
def ofToml? (v : Toml) : Option EditorSettings := do
  match ← v.settings? names with
  | [theme, tabSize, indentUnit, indentWithTabs, lineNumbers, matchBrackets] =>
    let default : EditorSettings := {}
    return {
      theme := ← Toml.setting? Toml.toTheme? default.theme theme
      tabSize := ← Toml.setting? Toml.toWord? default.tabSize tabSize
      indentUnit := ← Toml.setting? Toml.toWord? default.indentUnit indentUnit
      indentWithTabs := ← Toml.setting? Toml.toBool? default.indentWithTabs indentWithTabs
      lineNumbers := ← Toml.setting? Toml.toBool? default.lineNumbers lineNumbers
      matchBrackets := ← Toml.setting? Toml.toBool? default.matchBrackets matchBrackets }
  | _ => none

end EditorSettings

namespace HintSettings

/-- The names of the settings, in order. -/
def names : List Text := ["enabled", "derive_import_boundary"].map String.toList

/-- Reads the section. -/
def ofToml? (v : Toml) : Option HintSettings := do
  match ← v.settings? names with
  | [enabled, deriveImportBoundary] =>
    let default : HintSettings := {}
    return {
      enabled := ← Toml.setting? Toml.toBool? default.enabled enabled
      deriveImportBoundary :=
        ← Toml.setting? Toml.toBool? default.deriveImportBoundary deriveImportBoundary }
  | _ => none

end HintSettings

namespace Config

/-! ## Reading -/

/-- The names of the sections, in order. -/
def sections : List Text := ["editor", "hints"].map String.toList

/-- Reads a document. -/
def ofToml? (entries : Toml.Entries) : Option Config := do
  match ← (Toml.table .header entries).settings? sections with
  | [editor, hints] =>
    return {
      editor := ← Toml.setting? EditorSettings.ofToml? {} editor
      hints := ← Toml.setting? HintSettings.ofToml? {} hints }
  | _ => none

/-- **The configuration of a file**, the defaults when its contents are no
configuration, and what there is to warn of. -/
def ofContents (path : Option Text) (contents : Text) : Config × List ConfigWarning :=
  match (Toml.ofText? contents).bind ofToml? with
  | some c => (widenTab { c with path }, [])
  | none => (widenTab { path }, [.malformed])

/-! ## Writing -/

/-- A line that gives a setting. -/
def settingLine (name : String) (value : Text) : Text :=
  name.toList ++ [' ', '=', ' '] ++ value ++ ['\n']

/-- A boolean as it is written. -/
def boolText (b : Bool) : Text :=
  if b then "true".toList else "false".toList

/-- **The written form of a configuration**; its path is no part of it. -/
def render (c : Config) : Text :=
  "[editor]\n".toList
    ++ settingLine "theme" (['"'] ++ c.editor.theme.name ++ ['"'])
    ++ settingLine "tab_size" (.ofWord c.editor.tabSize)
    ++ settingLine "indent_unit" (.ofWord c.editor.indentUnit)
    ++ settingLine "indent_with_tabs" (boolText c.editor.indentWithTabs)
    ++ settingLine "line_numbers" (boolText c.editor.lineNumbers)
    ++ settingLine "match_brackets" (boolText c.editor.matchBrackets)
    ++ "\n[hints]\n".toList
    ++ settingLine "enabled" (boolText c.hints.enabled)
    ++ settingLine "derive_import_boundary" (boolText c.hints.deriveImportBoundary)

end Config

end EditorCore
