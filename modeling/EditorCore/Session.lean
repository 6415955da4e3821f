import EditorCore.Config
import EditorCore.Edit.Command
import EditorCore.Hint.Queue
import EditorCore.Hint.Resolve
import EditorCore.ImportRegion

/-!
# Sessions

A session is one editor at work: the buffer as a document, the import
boundary, the theme, and the queue to the hint panel once the panel is
there. The configuration it starts with stays as it is.

A host drives a session by **calls**, and every call has an answer. A call
that fails changes nothing: a key without a binding, a key command on
selections that are not all within the buffer, or one whose widths are no
words. Edits are applied to the buffer before their plan is answered.

The boundary is what was last reported, unless the configuration asks for
it to follow the buffer; then every change of the buffer sets it anew.
-/

namespace EditorCore

/-- **One editor at work.** -/
structure Session where
  config : Config
  document : Document
  boundary : ImportBoundary
  theme : Theme
  /-- The queue to the hint panel, once it is attached. -/
  queue : Option HintQueue

/-- Why a key has no effect. -/
inductive SessionError
  | unknownKey (name : Text)
  /-- A selection does not lie within the buffer. -/
  | outOfRange (position : Position)
  /-- A sum of widths is no word. -/
  | overflow
  | edit (error : EditError)
  deriving DecidableEq, Repr

/-- The wording of the error. -/
def SessionError.message : SessionError → String
  | unknownKey name => "unknown key '" ++ String.ofList name ++ "'"
  | outOfRange p => s!"position {p.line}:{p.column} is outside the document"
  | overflow => "attempt to add with overflow"
  | edit e => e.message

/-- What a key did. -/
inductive KeyResponse
  /-- The key is left to the editor. -/
  | pass
  /-- The plan was applied to the buffer. -/
  | edited (plan : EditPlan)
  /-- The buffer was submitted. -/
  | compiled (source : Text)
  deriving DecidableEq, Repr

/-- A position lies within a document. -/
def Document.contains (d : Document) (p : Position) : Bool :=
  p.line < d.lineCount && p.column ≤ d.lineLength p.line

namespace Session

/-- A session with an empty buffer. -/
def new (config : Config) : Session := ⟨config, .ofText [], .empty, config.editor.theme, none⟩

/-- The text of the buffer. -/
def source (s : Session) : Text := s.document.text

/-- Replaces the buffer. -/
def setSource (s : Session) (text : Text) : Session :=
  let document := Document.ofText text
  { s with
    document
    boundary := if s.config.hints.deriveImportBoundary then
      s.boundary.update document.importRegionEnd else s.boundary }

/-- Connects the hint panel, with nothing to tell it yet. -/
def attachHints (s : Session) : Session := { s with queue := some .empty }

/-- Takes the report of the hint panel where the imports end. -/
def updateBoundary (s : Session) (line : UInt32) : Session :=
  { s with boundary := s.boundary.update line }

/-- The hint for a selection. -/
def hintAt (s : Session) (selection : Selection) : Option Text :=
  s.document.hint s.boundary selection

/-- Adds a message to the queue, when the panel is attached. -/
def tell (s : Session) (m : HintMessage) : Session :=
  { s with queue := s.queue.map (·.push m) }

/-- Cursor moves are reported. -/
def reports (s : Session) : Bool := s.config.hints.enabled && s.queue.isSome

/-- **Reports a cursor move**, with the hint there. -/
def cursorMoved (s : Session) (selection : Selection) : Session × Option Text :=
  if s.reports then
    let hint := s.hintAt selection
    (s.tell (.cursorMoved hint), hint)
  else (s, none)

/-- **Submits the buffer.** -/
def compile (s : Session) : Session × Text := (s.tell (.submitted s.source), s.source)

/-- Changes to the other theme. -/
def toggleTheme (s : Session) : Session := { s with theme := s.theme.toggled }

/-- Takes the messages from the queue, when the panel is attached. -/
def drain (s : Session) : Session × Option (List HintMessage) :=
  match s.queue with
  | none => (s, none)
  | some q =>
    let (messages, q) := q.drain
    ({ s with queue := some q }, some messages)

/-- The first end of a selection that lies outside the buffer, the anchor of
each before its head. -/
def firstOutside? (s : Session) (ss : List Selection) : Option Position :=
  (ss.flatMap fun t => [t.anchor, t.head]).find? (!s.document.contains ·)

/-- **A key is pressed.** Its command acts on the selections in normal form. -/
def handleKey (s : Session) (key : Text) (ss : List Selection) :
    Session × Except SessionError KeyResponse :=
  match KeyBinding.ofName? key with
  | none => (s, .error (.unknownKey key))
  | some .compile =>
    let (s, source) := s.compile
    (s, .ok (.compiled source))
  | some (.edit command) =>
    match s.firstOutside? ss with
    | some p => (s, .error (.outOfRange p))
    | none =>
      match command.plan s.document.source (Selection.normalize ss) s.config.indentSettings with
      | none => (s, .error .overflow)
      | some .pass => (s, .ok .pass)
      | some (.edit plan) =>
        if plan.edits = [] then (s, .ok (.edited plan))
        else match plan.apply s.source with
          | .error e => (s, .error (.edit e))
          | .ok text => (s.setSource text, .ok (.edited plan))

/-! ## Calls -/

/-- What a host may ask of a session. -/
inductive Call
  | setSource (text : Text)
  | attachHints
  | updateBoundary (line : UInt32)
  | toggleTheme
  | cursorMoved (selection : Selection)
  | hintAt (selection : Selection)
  | handleKey (key : Text) (selections : List Selection)
  | compile
  | drain
  deriving DecidableEq, Repr

/-- What a session answers. -/
inductive Answer
  | done
  | theme (theme : Theme)
  | hint (hint : Option Text)
  | key (response : Except SessionError KeyResponse)
  | submission (source : Text)
  /-- The messages taken; `none` when the panel is not attached. -/
  | messages (messages : Option (List HintMessage))

/-- **One call.** -/
def step (s : Session) : Call → Session × Answer
  | .setSource text => (s.setSource text, .done)
  | .attachHints => (s.attachHints, .done)
  | .updateBoundary line => (s.updateBoundary line, .done)
  | .toggleTheme => (s.toggleTheme, .theme s.toggleTheme.theme)
  | .cursorMoved selection =>
    let (s, hint) := s.cursorMoved selection
    (s, .hint hint)
  | .hintAt selection => (s, .hint (s.hintAt selection))
  | .handleKey key selections =>
    let (s, response) := s.handleKey key selections
    (s, .key response)
  | .compile =>
    let (s, source) := s.compile
    (s, .submission source)
  | .drain =>
    let (s, messages) := s.drain
    (s, .messages messages)

/-- **The session after a sequence of calls.** -/
def run (s : Session) (calls : List Call) : Session := calls.foldl (fun s c => (s.step c).1) s

end Session

end EditorCore
