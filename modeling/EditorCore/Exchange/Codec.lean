import EditorCore.Json.Parse
import EditorCore.Session

/-!
# What sessions exchange with a page

A page talks to a session in JSON. A record is written as an object with
its fields in order; read, its fields may come in any order and unknown
ones are passed over, but none may be missing or repeated – except that a
field which may be `null` may be left out – and a record may also be an
array of exactly its fields in order.

A message that is one of several kinds is written as an object that names
its kind first, under a **tag**. Read, the tag may stand anywhere in the
object, or first in an array. Since the kind must be known before the
fields are, such a message is taken in as a whole first, and all of it must
fit; a record is only looked into where its fields are.
-/

namespace EditorCore

namespace Json

/-! ## Parts of messages -/

/-- An object with the given fields. -/
def record (fields : List (String × Json)) : Json :=
  .object (fields.map fun (name, j) => (some name.toList, j))

/-- A text. -/
def toText? : Json → Option Text
  | string s => s
  | _ => none

/-- A text or `null`. -/
def toOptionalText? : Json → Option (Option Text)
  | null => some none
  | string s => s.map some
  | _ => none

/-- A text or `null` as a value. -/
def optionalText : Option Text → Json
  | none => null
  | some t => text t

/-- A word: a number with no sign, fraction or exponent that fits. -/
def toWord? : Json → Option UInt32
  | number n => n.toNat?.bind fun k => if k < UInt32.size then some (.ofNat k) else none
  | _ => none

/-- A boolean. -/
def toBool? : Json → Option Bool
  | bool b => some b
  | _ => none

/-- **The fields of a record** in the order of `names`, each where it is
given. -/
def fields? (names : List String) : Json → Option (List (Option Json))
  | array items => if items.length = names.length then some (items.map some) else none
  | object members =>
    let keys := members.map (·.1)
    if keys.all (·.isSome) && names.all fun name => keys.count (some name.toList) ≤ 1 then
      some (names.map fun name => members.lookup (some name.toList))
    else none
  | _ => none

/-- How deep a message with a tag may be nested. -/
def maxDepth : Nat := 127

/-- **The kind of a message with a tag**, and the message without it. -/
def variant? (tag : String) (j : Json) : Option (Text × Json) :=
  if j.fits maxDepth then
    match j with
    | object members =>
      match members.filter fun (key, _) => key = some tag.toList with
      | [(_, string (some kind))] =>
        some (kind, object (members.filter fun (key, _) => key ≠ some tag.toList))
      | _ => none
    | array (string (some kind) :: items) => some (kind, array items)
    | _ => none
  else none

/-- A message without fields; what an object holds besides is passed over. -/
def isBare : Json → Bool
  | object _ => true
  | array items => items.isEmpty
  | _ => false

end Json

/-- **What can be exchanged** has a JSON form. -/
class Exchange (α : Type) where
  toJson : α → Json
  ofJson? : Json → Option α

namespace Exchange

/-- The text that stands for a value. -/
def write {α : Type} [Exchange α] (a : α) : Text := (toJson a).render

/-- **The value that a text stands for.** -/
def read? {α : Type} [Exchange α] (t : Text) : Option α := (Json.ofText? t).bind ofJson?

/-- A list is an array. -/
instance {α : Type} [Exchange α] : Exchange (List α) where
  toJson items := .array (items.map toJson)
  ofJson?
    | .array items => items.mapM ofJson?
    | _ => none

/-! ## Records -/

instance : Exchange Position where
  toJson p := .record [("line", .word p.line), ("column", .word p.column)]
  ofJson? j := do
    match ← j.fields? ["line", "column"] with
    | [line, column] => return ⟨← (← line).toWord?, ← (← column).toWord?⟩
    | _ => none

instance : Exchange Selection where
  toJson s := .record [("anchor", toJson s.anchor), ("head", toJson s.head)]
  ofJson? j := do
    match ← j.fields? ["anchor", "head"] with
    | [anchor, head] => return ⟨← ofJson? (← anchor), ← ofJson? (← head)⟩
    | _ => none

/-- The bounds of a replaced text. -/
structure Range where
  start : Position
  stop : Position
  deriving DecidableEq, Repr

instance : Exchange Range where
  toJson r := .record [("start", toJson r.start), ("end", toJson r.stop)]
  ofJson? j := do
    match ← j.fields? ["start", "end"] with
    | [start, stop] => return ⟨← ofJson? (← start), ← ofJson? (← stop)⟩
    | _ => none

instance : Exchange TextEdit where
  toJson e := .record [("range", toJson (⟨e.start, e.stop⟩ : Range)), ("new_text", .text e.newText)]
  ofJson? j := do
    match ← j.fields? ["range", "new_text"] with
    | [range, newText] =>
      let range : Range ← ofJson? (← range)
      return ⟨range.start, range.stop, ← (← newText).toText?⟩
    | _ => none

/-- A key and the selections it acts on. -/
structure KeyRequest where
  key : Text
  selections : List Selection
  deriving DecidableEq, Repr

instance : Exchange KeyRequest where
  toJson r := .record [("key", .text r.key), ("selections", toJson r.selections)]
  ofJson? j := do
    match ← j.fields? ["key", "selections"] with
    | [key, selections] => return ⟨← (← key).toText?, ← ofJson? (← selections)⟩
    | _ => none

/-- The answer to a cursor. -/
structure HintItem where
  hint : Option Text
  deriving DecidableEq, Repr

instance : Exchange HintItem where
  toJson h := .record [("hint", .optionalText h.hint)]
  ofJson? j := do
    match ← j.fields? ["hint"] with
    | [hint] => return ⟨← (hint.getD .null).toOptionalText?⟩
    | _ => none

/-- A submitted buffer. -/
structure Submission where
  source : Text
  deriving DecidableEq, Repr

instance : Exchange Submission where
  toJson s := .record [("source", .text s.source)]
  ofJson? j := do
    match ← j.fields? ["source"] with
    | [source] => return ⟨← (← source).toText?⟩
    | _ => none

/-- What a page shows of a session. -/
structure SessionStatus where
  lineCount : UInt32
  importEndLine : UInt32
  theme : Text
  hintsAttached : Bool
  deriving DecidableEq, Repr

instance : Exchange SessionStatus where
  toJson s := .record
    [("line_count", .word s.lineCount), ("import_end_line", .word s.importEndLine),
      ("theme", .text s.theme), ("hints_attached", .bool s.hintsAttached)]
  ofJson? j := do
    match ← j.fields? ["line_count", "import_end_line", "theme", "hints_attached"] with
    | [lineCount, importEndLine, theme, hintsAttached] =>
      return ⟨← (← lineCount).toWord?, ← (← importEndLine).toWord?, ← (← theme).toText?,
        ← (← hintsAttached).toBool?⟩
    | _ => none

/-! ## Messages of several kinds -/

instance : Exchange HintMessage where
  toJson
    | .cursorMoved hint =>
      .record [("kind", .text "cursor_moved".toList), ("hint", .optionalText hint)]
    | .submitted source => .record [("kind", .text "submitted".toList), ("source", .text source)]
  ofJson? j := do
    let (kind, j) ← j.variant? "kind"
    if kind = "cursor_moved".toList then
      let item : HintItem ← ofJson? j
      return .cursorMoved item.hint
    else if kind = "submitted".toList then
      let item : Submission ← ofJson? j
      return .submitted item.source
    else none

instance : Exchange EditPlan where
  toJson plan := .record [("edits", toJson plan.edits), ("selections", toJson plan.selections)]
  ofJson? j := do
    match ← j.fields? ["edits", "selections"] with
    | [edits, selections] => return ⟨← ofJson? (← edits), ← ofJson? (← selections)⟩
    | _ => none

instance : Exchange KeyResponse where
  toJson
    | .pass => .record [("outcome", .text "pass".toList)]
    | .edited plan => .record
      [("outcome", .text "edit".toList), ("edits", toJson plan.edits),
        ("selections", toJson plan.selections)]
    | .compiled source =>
      .record [("outcome", .text "compile".toList), ("source", .text source)]
  ofJson? j := do
    let (kind, j) ← j.variant? "outcome"
    if kind = "pass".toList then
      if j.isBare then return .pass else none
    else if kind = "edit".toList then return .edited (← ofJson? j)
    else if kind = "compile".toList then
      let item : Submission ← ofJson? j
      return .compiled item.source
    else none

end Exchange

end EditorCore
