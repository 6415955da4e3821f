import EditorCore.Text.Columns

/-!
# Files

What a program sees of the files around it. A path leads to a file, to a
directory or nowhere; only a file has contents, and they are bytes that may
or may not encode a text in UTF-8.
-/

namespace EditorCore

/-- What a path leads to. -/
inductive FileNode
  | file (contents : ByteArray)
  | directory

/-- Why a file cannot be read. -/
inductive FileError
  | notFound
  /-- The path goes through a file. -/
  | notDirectory
  | isDirectory
  /-- The path, or a name in it, is longer than can be. -/
  | nameTooLong
  | denied
  /-- The contents are not UTF-8. -/
  | notText
  deriving DecidableEq, Repr

/-- The wording of the error. -/
def FileError.message : FileError → String
  | notFound => "No such file or directory (os error 2)"
  | notDirectory => "Not a directory (os error 20)"
  | isDirectory => "Is a directory (os error 21)"
  | nameTooLong => "File name too long (os error 36)"
  | denied => "Permission denied (os error 13)"
  | notText => "stream did not contain valid UTF-8"

/-- **The files around a program**, as what each path leads to. -/
abbrev FileSystem := Text → Except FileError FileNode

namespace FileSystem

/-- A path leads to a file. -/
def isFile (fs : FileSystem) (path : Text) : Bool :=
  match fs path with
  | .ok (.file _) => true
  | _ => false

/-- **The text that a file holds.** -/
def readText (fs : FileSystem) (path : Text) : Except FileError Text :=
  match fs path with
  | .error e => .error e
  | .ok .directory => .error .isDirectory
  | .ok (.file contents) =>
    match String.fromUTF8? contents with
    | some s => .ok s.toList
    | none => .error .notText

end FileSystem

end EditorCore
