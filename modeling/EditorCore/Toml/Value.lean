import EditorCore.Numeral

/-!
# TOML values

A document is a table, and its tables say how they came about, because
what may still be added to a table depends on it: a table with a header of
its own is complete but for sub-tables, one that only appeared on the way
to another may still get its header or be taken up by a dotted key, one
that a dotted key made or took up takes further dotted keys, and an inline
table takes nothing. An array likewise
is either written as a value or grows by headers in double brackets.

Numbers keep their full size here, and one that is written without proper
digits has no value; that is for the reader of the number to refuse. A date
is not understood further, once it is known to be one.
-/

namespace EditorCore

/-- How a table came about. -/
inductive TableOrigin
  /-- By a header of its own. -/
  | header
  /-- On the way to the table of a header. -/
  | parent
  /-- On the way to the value of a dotted key, be it made there or taken up. -/
  | dotted
  /-- Between braces. -/
  | inline
  deriving DecidableEq, Repr

/-- **A TOML value.** -/
inductive Toml
  | boolean (value : Bool)
  /-- An integer, or `none` for one whose digits are none. -/
  | integer (value : Option Int)
  /-- A finite number, or `none` for one written by name. -/
  | float (value : Option Numeral)
  /-- A date, a time or both, as written. -/
  | dateTime (written : Text)
  | string (value : Text)
  /-- An array; `ofTables` when headers in double brackets made it. -/
  | array (ofTables : Bool) (items : List Toml)
  | table (origin : TableOrigin) (entries : List (Text × Toml))

namespace Toml

/-- The keys of a table with their values, in order. -/
abbrev Entries := List (Text × Toml)

mutual

/-- **A value can be taken in as it is**: integers have a value that fits 128
bits, signed or not, and no number is too large for a float. -/
def fits : Toml → Bool
  | integer n => n.any fun n => -2 ^ 127 ≤ n && n < 2 ^ 128
  | float n => !n.any (·.exceedsDouble)
  | array _ items => itemsFit items
  | table _ entries => entriesFit entries
  | _ => true

/-- Every item can be taken in. -/
def itemsFit : List Toml → Bool
  | [] => true
  | v :: vs => fits v && itemsFit vs

/-- Every value of a table can be taken in. -/
def entriesFit : List (Text × Toml) → Bool
  | [] => true
  | (_, v) :: es => fits v && entriesFit es

end

end Toml

end EditorCore
