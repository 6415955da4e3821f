import EditorCore.Config
import EditorCore.Files
import EditorCore.Hint.Resolve
import EditorCore.ImportRegion
import EditorCore.Text.Digits
import EditorCore.Text.Quoted

/-!
# Reports on a source

Two questions about a source can be asked from outside an editor: what the
hint at a position is, and what tokens there are. Each answer is made of
lines. A position that no cursor can have is refused, and it is refused
before anything else is asked, even where hints are turned off.
-/

namespace EditorCore.CommandLine

/-- **Why a command fails.** -/
inductive Failure
  | unreadable (file : Text) (error : FileError)
  /-- There are too few lines. -/
  | lineOutside (line lineCount : UInt32)
  /-- The line is too short. -/
  | columnOutside (column line length : UInt32)
  deriving DecidableEq, Repr

/-- The wording of the failure. -/
def Failure.message : Failure → String
  | unreadable file e => "failed to read " ++ String.ofList file ++ ": " ++ e.message
  | lineOutside line count => s!"line {line} is outside the document ({count} lines)"
  | columnOutside column line length =>
    s!"column {column} is past the end of line {line} ({length} columns)"

/-! ## The hint at a position -/

/-- Refuses a position outside a document. -/
def checkPosition (d : Document) (p : Position) : Except Failure Unit :=
  if d.lineCount ≤ p.line then .error (.lineOutside p.line d.lineCount)
  else if d.lineLength p.line < p.column then
    .error (.columnOutside p.column p.line (d.lineLength p.line))
  else .ok ()

/-- **The hint for a cursor**, or a hyphen where there is none; nothing at
all when hints are turned off. -/
def hintReport (d : Document) (hints : HintSettings) (p : Position) (importEnd : Option UInt32) :
    Except Failure Text := do
  checkPosition d p
  if hints.enabled then
    let boundary := .upTo (importEnd.getD d.importRegionEnd)
    return (d.hint boundary (.cursor p)).getD ['-'] ++ ['\n']
  else return []

/-! ## The tokens of a source -/

/-- A token with its columns. -/
def tokenReport (t : LineToken) : Text :=
  [' '] ++ t.kind.name.toList ++ ['@'] ++ .ofWord t.start ++ ['.', '.'] ++ .ofWord t.stop ++ [' ']
    ++ t.text.quoted

/-- **The tokens of a line** that are not trivia, after the number of the
line. -/
def lineReport (d : Document) (line : UInt32) : Text :=
  .ofWord line ++ [':']
    ++ ((d.lineTokens line).filter (!·.kind.isTrivia)).flatMap tokenReport ++ ['\n']

/-- **The tokens of a source**, or of one of its lines. -/
def tokensReport (d : Document) (only : Option UInt32) : Except Failure Text :=
  match only with
  | some line =>
    if line < d.lineCount then .ok (lineReport d line)
    else .error (.lineOutside line d.lineCount)
  | none => .ok ((List.range d.lineCount.toNat).flatMap fun line => lineReport d (.ofNat line))

end EditorCore.CommandLine
