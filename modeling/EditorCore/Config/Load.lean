import EditorCore.Config.Format
import EditorCore.Files
import EditorCore.Files.Path

/-!
# The configuration of a directory

A directory is configured by a file in it. Either of two names will do, and
the plain one goes before the hidden one. Without such a file the defaults
hold, and a file that does not hold a text is warned of and counts as found.
-/

namespace EditorCore.Config

/-- The names of a configuration file, in order. -/
def fileNames : List Text := ["playground.toml", ".playground.toml"].map String.toList

/-- The configuration file of a directory. -/
def file? (fs : FileSystem) (root : Text) : Option Text :=
  (fileNames.map root.inDirectory).find? fs.isFile

/-- **The configuration of a directory**, and what there is to warn of. -/
def load (fs : FileSystem) (root : Text) : Config × List ConfigWarning :=
  match file? fs root with
  | none => ({}, [])
  | some path =>
    match fs.readText path with
    | .ok contents => ofContents (some path) contents
    | .error _ => ({ path }, [.unreadable])

end EditorCore.Config
