import EditorCore.Position

/-!
# Selections

A selection runs from its anchor, where it was started, to its head, where
the cursor is drawn; it is **empty**, a plain cursor, when the two
coincide. Editors hand commands a list of selections that is sorted and
free of overlap, and `normalize` brings any list into that form: selections
that overlap or touch become one, so that between two that remain there
is a gap.
-/

namespace EditorCore

/-- An anchor and a head. -/
structure Selection where
  anchor : Position
  head : Position
  deriving DecidableEq, Repr

namespace Selection

/-- The empty selection at a position. -/
def cursor (p : Position) : Selection := ⟨p, p⟩

/-- Anchor and head coincide. -/
def isEmpty (s : Selection) : Bool := s.anchor = s.head

/-- The earlier end. -/
def start (s : Selection) : Position := min s.anchor s.head

/-- The later end. -/
def stop (s : Selection) : Position := max s.anchor s.head

/-- The anchor does not come after the head. -/
def isForward (s : Selection) : Bool := s.anchor ≤ s.head

/-- The selection between two positions that runs in the direction of `s`. -/
def withBounds (s : Selection) (start stop : Position) : Selection :=
  if s.isForward then ⟨start, stop⟩ else ⟨stop, start⟩

/-! ## Normal form -/

/-- Selections in the order of their starts; equal starts keep the order
they came in. -/
def sortByStart (ss : List Selection) : List Selection :=
  ss.mergeSort fun s t => s.start ≤ t.start

/-- Selections in the order of their starts, then of their ends; equal
bounds keep the order they came in. -/
def sortByBounds (ss : List Selection) : List Selection :=
  ss.mergeSort fun s t => s.start < t.start ∨ s.start = t.start ∧ s.stop ≤ t.stop

/-- **One selection for two that meet**, the first starting no later. It
runs in the direction of the first, or of the second when the first is a
plain cursor and so has none. -/
def absorb (s t : Selection) : Selection :=
  (if s.isEmpty then t else s).withBounds s.start (max s.stop t.stop)

/-- Merges the selections of a sorted list that `s` precedes, as long as
each starts no later than the one before it ends. -/
def mergeInto (s : Selection) : List Selection → List Selection
  | [] => [s]
  | t :: ts => if s.stop < t.start then s :: mergeInto t ts else mergeInto (absorb s t) ts

/-- **Sorts selections and merges those that overlap or touch.** -/
def normalize (ss : List Selection) : List Selection :=
  match sortByBounds ss with
  | [] => []
  | s :: rest => mergeInto s rest

end Selection

end EditorCore
