import EditorCore.Hint.Boundary
import EditorCore.Hint.Source
import EditorCore.Selection
import EditorCore.Text.Blank
import EditorCore.Text.Search

/-!
# Hints

The hint for a cursor names what it is at, as documentation lists it: an
identifier with the module path written around it, or a reserved word or
operator. A selection that is not a plain cursor has no hint.

A qualified name is several tokens, so the resolver walks. To the left it
collects upper-case qualifiers and their dots; to the right, from an
upper-case segment, it collects further segments until a lower-case one
ends the name. Both walks only ask which token a cursor would be at: the
column where a token starts belongs to its left neighbour, and one column
past its end to its right one.

The tokens met on the way may come from anywhere. To the left the columns
fall, by the guards of the walk, and it always ends. To the right they
need not rise – a source may answer with the same empty token again and
again – and such a walk has no hint: `resolve?` is `none` then.
-/

namespace EditorCore

namespace TokenSource

/-- The token to the left of a token of a line. -/
def before (s : TokenSource) (line : UInt32) (t : TokenView) : TokenView :=
  s.tokenAt ⟨line, t.start⟩

/-- The token to the right of a token of a line. The probe one past its end
stays at the last column when there is none further. -/
def after (s : TokenSource) (line : UInt32) (t : TokenView) : TokenView :=
  s.tokenAt ⟨line, if t.stop = .ofNat (UInt32.size - 1) then t.stop else t.stop + 1⟩

/-! ## Walking to the left -/

/-- **One step to the left**: the qualifier of a token, an upper-case
identifier with a dot between the two, each starting before the one to its
right. -/
def qualifier? (s : TokenSource) (line : UInt32) (t : TokenView) : Option TokenView :=
  let dot := s.before line t
  if dot.text = ['.'] ∧ dot.start < t.start then
    let q := s.before line dot
    if q.category = .upperIdentifier ∧ q.start < dot.start then some q else none
  else none

/-- A qualifier starts before what it qualifies. -/
theorem start_lt_of_qualifier? {s : TokenSource} {line : UInt32} {t q : TokenView}
    (h : s.qualifier? line t = some q) : q.start < t.start := by
  unfold qualifier? at h
  dsimp only at h
  split at h
  · rename_i hd
    split at h
    · rename_i hq
      obtain rfl := Option.some.inj h
      exact UInt32.lt_trans hq.2 hd.2
    · cases h
  · cases h

/-- **The module path before a token**, each qualifier followed by a dot. -/
def qualifiers (s : TokenSource) (line : UInt32) (t : TokenView) : Text :=
  match _h : s.qualifier? line t with
  | none => []
  | some q => s.qualifiers line q ++ q.text ++ ['.']
termination_by t.start.toNat
decreasing_by exact UInt32.lt_iff_toNat_lt.1 (start_lt_of_qualifier? _h)

/-! ## Walking to the right -/

/-- **One step to the right**: what it adds to the name, and the segment the
walk goes on from. A dot is added even when no segment follows it, and only
an upper-case segment lets the walk go on. -/
def segment (s : TokenSource) (line : UInt32) (t : TokenView) : Text × Option TokenView :=
  let dot := s.after line t
  if dot.text ≠ ['.'] ∨ dot.start < t.stop then ([], none)
  else
    let next := s.after line dot
    if next.start < dot.stop then (['.'], none)
    else match next.category with
      | .lowerIdentifier => ('.' :: next.text, none)
      | .upperIdentifier => ('.' :: next.text, some next)
      | _ => (['.'], none)

/-- What `steps` steps to the right add to the name; `none` when the walk has
not ended by then. -/
def segmentsWithin (s : TokenSource) (line : UInt32) : Nat → TokenView → Option Text
  | 0, _ => none
  | steps + 1, t =>
    match s.segment line t with
    | (text, none) => some text
    | (text, some next) => (s.segmentsWithin line steps next).map (text ++ ·)

/-- **The segments after a token.** A step depends on the token's end alone,
so a walk longer than there are columns meets an end again and never ends. -/
def segments? (s : TokenSource) (line : UInt32) (t : TokenView) : Option Text :=
  s.segmentsWithin line UInt32.size t

end TokenSource

/-! ## Reading the line -/

/-- **The token that ends at `stop` names the imported module**: the line is
an import, and the token comes before the `as` or before the `exposing` of
its clauses. Both are found as plain text, also within a name. -/
def namesImportedModule (line : Text) (stop : UInt32) : Bool :=
  line.startsWithWord "import".toList &&
    ["as".toList, "exposing".toList].any fun clause =>
      (Text.columnOf? line clause).any fun column => 0 < column && stop.toNat < column

/-- The line declares a type alias: `type`, blanks, and the word `alias`. -/
def isTypeAlias (line : Text) : Bool :=
  (Text.dropWord? line "type".toList).any fun rest =>
    rest.head?.any isBlank && rest.dropBlanks.startsWithWord "alias".toList

/-! ## The hint -/

/-- What marks the path of a module named by an import. -/
def moduleTag : Text := "module:".toList

namespace TokenSource

/-- The hint for a lower-case identifier: its qualified name. -/
def lowerHint (s : TokenSource) (line : UInt32) (t : TokenView) : Text :=
  s.qualifiers line t ++ t.text

/-- **The hint for an upper-case identifier**: the whole name it is part of,
tagged where it names an imported module. -/
def upperHint? (s : TokenSource) (boundary : ImportBoundary) (line : UInt32)
    (t : TokenView) : Option Text :=
  (s.segments? line t).map fun more =>
    let name := s.qualifiers line t ++ t.text ++ more
    if boundary.contains line && namesImportedModule (s.lineText line) t.stop then
      moduleTag ++ name
    else name

/-- The hint for an identifier; other tokens have none here. -/
def nameHint? (s : TokenSource) (boundary : ImportBoundary) (line : UInt32)
    (t : TokenView) : Option (Option Text) :=
  match t.category with
  | .lowerIdentifier => some (some (s.lowerHint line t))
  | .upperIdentifier => (s.upperHint? boundary line t).map some
  | _ => some none

/-- The hint for a reserved word or an operator other than a dot: the
documentation lists `type alias` as `alias`, and the `as` of an import as
`import`. -/
def wordHint (s : TokenSource) (boundary : ImportBoundary) (line : UInt32) (word : Text) : Text :=
  if word = "type".toList ∧ isTypeAlias (s.lineText line) then "alias".toList
  else if word = "as".toList ∧ boundary.contains line then "import".toList
  else word

/-- **The hint for a token.** A dot has the hint of the identifier after it. -/
def tokenHint? (s : TokenSource) (boundary : ImportBoundary) (line : UInt32)
    (t : TokenView) : Option (Option Text) :=
  if t.category = .keyword then
    if t.text = ['.'] then s.nameHint? boundary line (s.after line t)
    else some (some (s.wordHint boundary line t.text))
  else s.nameHint? boundary line t

/-- **The hint for a selection**, `some none` where there is none to give;
`none` when the walk to the right never ends. -/
def resolve? (s : TokenSource) (boundary : ImportBoundary) (selection : Selection) :
    Option (Option Text) :=
  if selection.isEmpty then
    s.tokenHint? boundary selection.head.line (s.tokenAt selection.head)
  else some none

end TokenSource

/-- **The hint for a selection of a document.** -/
def Document.hint (d : Document) (boundary : ImportBoundary) (selection : Selection) :
    Option Text :=
  (d.source.resolve? boundary selection).join

end EditorCore
