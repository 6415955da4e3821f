import EditorCore.Numeral

/-!
# JSON values

A value as it is written, and no further understood: a number keeps its
parts, an object its members in order, repeated keys included. A string
may hold half of a surrogate pair, which belongs to no character; such a
string has no text, and its value is `none`.
-/

namespace EditorCore

/-- **A JSON value.** -/
inductive Json
  | null
  | bool (value : Bool)
  | number (value : Numeral)
  | string (value : Option Text)
  | array (items : List Json)
  | object (members : List (Option Text × Json))

namespace Json

/-- A string with a text. -/
def text (t : Text) : Json := .string (some t)

/-- A word as a number. -/
def word (n : UInt32) : Json := .number (.ofNat n.toNat)

mutual

/-- **A value can be taken in as it is**: its strings have texts, its numbers
are finite when they are scaled, and arrays and objects are nested at most `depth` deep. -/
def fits (depth : Nat) : Json → Bool
  | null => true
  | bool _ => true
  | number n => !n.exceedsScaled
  | string s => s.isSome
  | array items => 0 < depth && itemsFit (depth - 1) items
  | object members => 0 < depth && membersFit (depth - 1) members

/-- Every item can be taken in. -/
def itemsFit (depth : Nat) : List Json → Bool
  | [] => true
  | j :: js => fits depth j && itemsFit depth js

/-- Every member can be taken in, its key and its value. -/
def membersFit (depth : Nat) : List (Option Text × Json) → Bool
  | [] => true
  | (key, j) :: ms => key.isSome && fits depth j && membersFit depth ms

end

end Json

end EditorCore
