import EditorCore.Edit.Plan
import EditorCore.Edit.Shift
import EditorCore.Hint.Source

/-!
# Brackets and quotes in pairs

Typing an opening character inserts the closing one as well, or wraps what
is selected; typing a closing character in front of itself steps over it;
backspace between the two removes both. Each command acts on all
selections or on none: where one of them does not fit, the key is left to
the editor.

Quotes close what they open, so a quote typed where no pair can start may
still step over one. Inside a string or next to an unfinished one, a
double quote is always taken as the closing one.
-/

namespace EditorCore

/-! ## Stepping over -/

/-- **Typing a closing character** right before the same character moves all
cursors over it. -/
def closePair (source : TokenSource) (ss : List Selection) (closing : Char) : KeyOutcome :=
  if ss ≠ [] ∧ ∀ s ∈ ss, s.isEmpty ∧ source.charAfter s.head = some closing then
    .edit ⟨[], (Selection.sortByStart ss).map fun s =>
      .cursor ⟨s.head.line, s.head.column + columnWidth closing⟩⟩
  else .pass

/-! ## Opening -/

/-- The characters that may follow a cursor for a pair to be inserted there;
the end of the line may, too. -/
def isPairable (c : Char) : Bool :=
  [' ', '\x0b', '\x0c', '(', ')', '{', '}', '[', ']'].contains c

/-- A pair may be inserted at a position. -/
def TokenSource.pairable (source : TokenSource) (p : Position) : Bool :=
  (source.charAfter p).all isPairable

/-- A position is in or right after a string, or something unfinished. -/
def TokenSource.inLiteral (source : TokenSource) (p : Position) : Bool :=
  let category := (source.tokenAt p).category
  category = .string || category = .error

/-- The cursors inside pairs inserted at `ps`, which come in order. -/
def pairCursors (opening closing : Char) (log : ShiftLog) : List Position → List Selection
  | [] => []
  | p :: ps =>
    .cursor ⟨p.line, p.column + log.on p.line + columnWidth opening⟩ ::
      pairCursors opening closing
        ((p.line, columnWidth opening + columnWidth closing) :: log) ps

/-- Inserts a pair at every cursor and puts the cursor inside. -/
def insertPairs (ss : List Selection) (opening closing : Char) : EditPlan :=
  let heads := (Selection.sortByStart ss).map (·.head)
  ⟨heads.map (TextEdit.insert · [opening, closing]), pairCursors opening closing [] heads⟩

/-- The selections of the wrapped texts. An opening character moves the text
it precedes, a closing one what comes after it. -/
def wrapped (opening closing : Char) (log : ShiftLog) : List Selection → List Selection
  | [] => []
  | s :: ss =>
    let opened : ShiftLog := (s.start.line, columnWidth opening) :: log
    let start := ⟨s.start.line, s.start.column + opened.on s.start.line⟩
    let stop := ⟨s.stop.line, s.stop.column + opened.on s.stop.line⟩
    s.withBounds start stop ::
      wrapped opening closing ((s.stop.line, columnWidth closing) :: opened) ss

/-- Wraps every selection and keeps the text selected. -/
def surround (ss : List Selection) (opening closing : Char) : EditPlan :=
  let sorted := Selection.sortByStart ss
  ⟨sorted.flatMap fun s => [.insert s.start [opening], .insert s.stop [closing]],
    wrapped opening closing [] sorted⟩

/-- **Typing an opening character.** Cursors that all have room for a pair
get one, selections that are all non-empty are wrapped, and a quote that
can do neither is tried as a closing one. -/
def openPair (source : TokenSource) (ss : List Selection) (opening closing : Char) :
    KeyOutcome :=
  if ss = [] then .pass
  else if closing = '"' ∧ ∃ s ∈ ss, s.isEmpty ∧ source.inLiteral s.head then
    closePair source ss closing
  else if ∀ s ∈ ss, s.isEmpty ∧ source.pairable s.head then
    .edit (insertPairs ss opening closing)
  else if ∀ s ∈ ss, ¬ s.isEmpty then .edit (surround ss opening closing)
  else if opening = closing then closePair source ss closing
  else .pass

/-! ## Removing -/

/-- The pairs that backspace removes as one. -/
def emptyPairs : List Text :=
  [['(', ')'], ['{', '}'], ['[', ']'], ['"', '"'], ['\'', '\'']]

/-- A position lies inside an empty pair. -/
def TokenSource.inEmptyPair (source : TokenSource) (p : Position) : Bool :=
  p.column ≠ 0 &&
    emptyPairs.contains
      ((source.lineText p.line).slice (p.column - 1).toNat (p.column + 1).toNat)

/-- **Which pairs are removed.** Pairs in order may overlap, as where two
cursors lie between three quotes; one that starts before the end of the
last one removed is left to it. -/
def keptPairs (last : Option Position) : List Position → List Position
  | [] => []
  | p :: ps =>
    if last.any fun stop => (⟨p.line, p.column - 1⟩ : Position) < stop then keptPairs last ps
    else p :: keptPairs (some ⟨p.line, p.column + 1⟩) ps

/-- Where the cursors inside removed pairs end up. -/
def removalCursors (log : ShiftLog) : List Position → List Selection
  | [] => []
  | p :: ps =>
    .cursor ⟨p.line, p.column - 1 - log.on p.line⟩ :: removalCursors ((p.line, 2) :: log) ps

/-- **Backspace inside empty pairs** removes both characters of each. -/
def backspace (source : TokenSource) (ss : List Selection) : KeyOutcome :=
  if ss ≠ [] ∧ ∀ s ∈ ss, s.isEmpty ∧ source.inEmptyPair s.head then
    let kept := keptPairs none ((Selection.sortByStart ss).map (·.head))
    .edit ⟨kept.map fun p => .delete ⟨p.line, p.column - 1⟩ ⟨p.line, p.column + 1⟩,
      removalCursors [] kept⟩
  else .pass

end EditorCore
