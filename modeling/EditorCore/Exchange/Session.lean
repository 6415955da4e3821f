import EditorCore.Exchange.Codec

/-!
# Sessions driven by a page

A page drives a session through texts: what a call needs comes in JSON, and
so does what it answers. A text that cannot be read fails the call and
leaves the session as it is; otherwise the call is the session's own, and
its answer is written out. A queue that is not attached has no messages.
-/

namespace EditorCore

open Exchange

/-- Why a call of a page fails. -/
inductive PageError
  | invalidSelection
  | invalidKeyRequest
  | session (error : SessionError)
  deriving DecidableEq, Repr

/-- The wording of the error. -/
def PageError.message : PageError → String
  | invalidSelection => "invalid selection json"
  | invalidKeyRequest => "invalid key request json"
  | session e => e.message

/-- What a page may ask of a session. -/
inductive PageCall
  | setSource (text : Text)
  | attachHints
  | updateBoundary (line : UInt32)
  | toggleTheme
  | cursorMoved (json : Text)
  | hintAt (json : Text)
  | handleKey (json : Text)
  | compile
  | drain
  | status
  | sourceText
  deriving DecidableEq, Repr

/-- What a page is answered. -/
inductive PageAnswer
  | done
  /-- The name of the theme. -/
  | theme (name : Text)
  /-- The text of the buffer, as it is. -/
  | buffer (source : Text)
  | json (answer : Except PageError Text)

namespace Session

/-- What a page shows of the session. -/
def status (s : Session) : SessionStatus :=
  ⟨s.document.lineCount, s.boundary.endLine, s.theme.name, s.queue.isSome⟩

/-- **One call of a page.** -/
def stepPage (s : Session) : PageCall → Session × PageAnswer
  | .setSource text => (s.setSource text, .done)
  | .attachHints => (s.attachHints, .done)
  | .updateBoundary line => (s.updateBoundary line, .done)
  | .toggleTheme => (s.toggleTheme, .theme s.toggleTheme.theme.name)
  | .cursorMoved json =>
    match read? json with
    | none => (s, .json (.error .invalidSelection))
    | some selection =>
      let (s, hint) := s.cursorMoved selection
      (s, .json (.ok (write (⟨hint⟩ : HintItem))))
  | .hintAt json =>
    match read? json with
    | none => (s, .json (.error .invalidSelection))
    | some selection => (s, .json (.ok (write (⟨s.hintAt selection⟩ : HintItem))))
  | .handleKey json =>
    match (read? json : Option KeyRequest) with
    | none => (s, .json (.error .invalidKeyRequest))
    | some request =>
      match s.handleKey request.key request.selections with
      | (s, .ok response) => (s, .json (.ok (write response)))
      | (s, .error e) => (s, .json (.error (.session e)))
  | .compile =>
    let (s, source) := s.compile
    (s, .json (.ok (write (⟨source⟩ : Submission))))
  | .drain =>
    let (s, messages) := s.drain
    (s, .json (.ok (write (messages.getD []))))
  | .status => (s, .json (.ok (write s.status)))
  | .sourceText => (s, .buffer s.source)

/-- **The session after a sequence of calls of a page.** -/
def runPage (s : Session) (calls : List PageCall) : Session :=
  calls.foldl (fun s c => (s.stepPage c).1) s

end Session

end EditorCore
