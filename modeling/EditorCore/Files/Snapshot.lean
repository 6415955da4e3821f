import EditorCore.Files
import EditorCore.Files.Path

/-!
# Snapshots of a directory

A snapshot holds files and directories by their path from a directory, and
with every entry the directories it lies in. A path is walked segment by
segment, and every step but the last must reach a directory. Nothing is
known of what lies outside but that it is a directory.
-/

namespace EditorCore

/-- **The entries under a directory**, each with the names on the way to it. -/
structure Snapshot where
  entries : List (List Text × FileNode)

namespace Snapshot

/-- A snapshot of the entries at the given paths. -/
def ofPaths (entries : List (Text × FileNode)) : Snapshot :=
  ⟨entries.map fun (path, node) => (path.pathSegments.filter (!·.isIdle), node)⟩

/-- What the names lead to. -/
def node? (s : Snapshot) (names : List Text) : Option FileNode :=
  if names = [] then some .directory
  else match s.entries.lookup names with
    | some node => some node
    | none => if s.entries.any fun (path, _) => names.isPrefixOf path then some .directory else none

/-- Where a walk is: at the end of some names, or outside. -/
abbrev Place := Option (List Text)

/-- What there is at a place. -/
def nodeAt (s : Snapshot) : Place → Except FileError FileNode
  | none => .ok .directory
  | some names =>
    match s.node? names with
    | some node => .ok node
    | none => .error .notFound

/-- Where a segment leads from a directory. -/
def enter (segment : Text) (place : Place) : Except FileError Place :=
  if segment.isIdle then .ok place
  else if Text.maxNameSize < segment.byteSize then .error .nameTooLong
  else match place with
    | none => if segment.isUp then .ok none else .error .notFound
    | some names =>
      if !segment.isUp then .ok (some (names ++ [segment]))
      else if names = [] then .ok none
      else .ok (some names.dropLast)

/-- **One step of a walk.** -/
def step (s : Snapshot) (place : Place) (segment : Text) : Except FileError Place :=
  match s.nodeAt place with
  | .error e => .error e
  | .ok (.file _) => .error .notDirectory
  | .ok .directory => enter segment place

/-- **What a path leads to** from the directory of the snapshot. -/
def files (s : Snapshot) : FileSystem := fun path =>
  if path = [] then .error .notFound
  else if Text.maxPathSize < path.byteSize then .error .nameTooLong
  else do
    let start : Place := if path.head? = some '/' then none else some []
    s.nodeAt (← path.pathSegments.foldlM s.step start)

end Snapshot

end EditorCore
