import EditorCore.Toml.Value

/-!
# Building TOML tables

A document is a sequence of statements: a header turns to a table, and an
assignment puts a value under a key of that table. Keys may be dotted and
so are paths. No key is given twice, and a table is not defined twice: what
a statement may pass through and what it may add to is settled here, by
the origin of the tables it meets. A statement that may not be leaves no
document at all.
-/

namespace EditorCore

/-- A statement of a document. -/
inductive TomlStatement
  /-- A header; `ofTables` when it is in double brackets. -/
  | header (ofTables : Bool) (path : List Text)
  | assignment (path : List Text) (value : Toml)

namespace Toml

/-- Puts a value under a key, in place of the one it has. -/
def put (key : Text) (value : Toml) : Entries → Entries
  | [] => [(key, value)]
  | (k, v) :: es => if k = key then (k, value) :: es else (k, v) :: put key value es

/-- Changes the last of an array of tables. -/
def inLast? (change : Entries → Option Entries) : List Toml → Option (List Toml)
  | [] => none
  | [.table origin es] => (change es).map fun es => [.table origin es]
  | [_] => none
  | v :: vs => (inLast? change vs).map (v :: ·)

/-- **Assigns a value to a path.** On the way, a dotted key makes tables and
passes through those that dotted keys made. A table that only headers went
through becomes one of them: it takes the key, and no header of its own any
more. The last of an array of tables may be passed through, but nothing is
added to it. -/
def assign? (value : Toml) : List Text → Entries → Option Entries
  | [], _ => none
  | [key], es => if (es.lookup key).isSome then none else some (es ++ [(key, value)])
  | key :: path, es =>
    match es.lookup key with
    | none => (assign? value path []).map fun sub => put key (.table .dotted sub) es
    | some (.table origin sub) =>
      if origin = .dotted ∨ origin = .parent then
        (assign? value path sub).map fun sub => put key (.table .dotted sub) es
      else none
    | some (.array true items) =>
      if 1 < path.length then
        (inLast? (assign? value path) items).map fun items => put key (.array true items) es
      else none
    | some _ => none

/-- **Turns to the table of a header.** Every table on the way is passed
through but for inline ones, and missing ones are made. The table itself is
new, or only headers went through it so far; in double brackets it is one
more of its array. -/
def open? (ofTables : Bool) : List Text → Entries → Option Entries
  | [], _ => none
  | [key], es =>
    match es.lookup key, ofTables with
    | none, false => some (put key (.table .header []) es)
    | none, true => some (put key (.array true [.table .header []]) es)
    | some (.table .parent sub), false => some (put key (.table .header sub) es)
    | some (.array true items), true =>
      some (put key (.array true (items ++ [.table .header []])) es)
    | _, _ => none
  | key :: path, es =>
    match es.lookup key with
    | none => (open? ofTables path []).map fun sub => put key (.table .parent sub) es
    | some (.table origin sub) =>
      if origin = .inline then none
      else (open? ofTables path sub).map fun sub => put key (.table origin sub) es
    | some (.array true items) =>
      (inLast? (open? ofTables path) items).map fun items => put key (.array true items) es
    | some _ => none

/-- Changes the table that a header turned to. -/
def within? (change : Entries → Option Entries) : List Text → Entries → Option Entries
  | [], es => change es
  | key :: path, es =>
    match es.lookup key with
    | some (.table origin sub) =>
      (within? change path sub).map fun sub => put key (.table origin sub) es
    | some (.array true items) =>
      (inLast? (within? change path) items).map fun items => put key (.array true items) es
    | _ => none

/-- Takes a statement: the document so far, and the path of the table that
assignments go to. -/
def take? : Entries × List Text → TomlStatement → Option (Entries × List Text)
  | (root, _), .header ofTables path => (open? ofTables path root).map fun root => (root, path)
  | (root, current), .assignment path value =>
    (within? (assign? value path) current root).map fun root => (root, current)

/-- **The document of statements.** -/
def ofStatements? (statements : List TomlStatement) : Option Entries :=
  (statements.foldlM take? ([], [])).map (·.1)

end Toml

end EditorCore
