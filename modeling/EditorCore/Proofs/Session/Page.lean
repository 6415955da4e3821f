import EditorCore.Config.Format
import EditorCore.Exchange.Session
import EditorCore.Proofs.Exchange.RoundTrip

/-!
# A page drives the session it shows

A page has its session behind texts in both directions. None of it is lost on
the way: a session that is driven by a page is, after any calls, in the state
it would be in had a host made those calls that can be read, and what the page
is answered reads back as the session's own answer
(`Session.runPage_refines`). A text that cannot be read is answered by an
error, and the session does not notice.

What a call of a page asks for is said once, with its text read
(`PageCall.decode`), and every request has one answer to meet
(`Session.Meets`). One call meets its request in any state of the session,
since what is written is read back; a run is one call after the other.
-/

namespace EditorCore

open Exchange

/-! ## What a page asks for -/

/-- **What a call of a page asks for.** -/
inductive PageRequest
  /-- A call of the session. -/
  | call (call : Session.Call)
  /-- How many lines there are, where the imports end, which theme there is, and whether the
  panel is attached. -/
  | status
  /-- The text of the buffer. -/
  | source
  /-- Nothing, since the text cannot be read. -/
  | refused (error : PageError)

/-- The call of the session that is asked for. -/
def PageRequest.call? : PageRequest → Option Session.Call
  | call c => some c
  | status | source | refused _ => none

namespace PageCall

/-- **What a call asks for**, once its text is read. -/
def decode : PageCall → PageRequest
  | setSource text => .call (.setSource text)
  | attachHints => .call .attachHints
  | updateBoundary line => .call (.updateBoundary line)
  | toggleTheme => .call .toggleTheme
  | cursorMoved json =>
    match read? json with
    | none => .refused .invalidSelection
    | some selection => .call (.cursorMoved selection)
  | hintAt json =>
    match read? json with
    | none => .refused .invalidSelection
    | some selection => .call (.hintAt selection)
  | handleKey json =>
    match (read? json : Option KeyRequest) with
    | none => .refused .invalidKeyRequest
    | some request => .call (.handleKey request.key request.selections)
  | compile => .call .compile
  | drain => .call .drain
  | status => .status
  | sourceText => .source

end PageCall

/-! ## What a page is answered -/

/-- **An answer to a page shows an answer of the session**: its text reads back
as what the session answered, and its error is the session's. -/
def PageAnswer.Shows : PageAnswer → Session.Answer → Prop
  | done, .done => True
  | theme name, .theme t => name = t.name
  | json (.ok text), .hint hint => read? text = some (⟨hint⟩ : HintItem)
  | json (.ok text), .key (.ok response) => read? text = some response
  | json (.error e), .key (.error error) => e = .session error
  | json (.ok text), .submission source => read? text = some (⟨source⟩ : Submission)
  | json (.ok text), .messages messages => read? text = some (messages.getD [])
  | _, _ => False

namespace Session

/-- **What a request leads to**: the session it leaves, and the answer to the
page. -/
def Meets (s : Session) (request : PageRequest) (t : Session) (answer : PageAnswer) : Prop :=
  match request with
  | .call c => t = (s.step c).1 ∧ answer.Shows (s.step c).2
  | .status => t = s ∧ ∃ text, answer = .json (.ok text)
      ∧ ∃ status : SessionStatus, read? text = some status
        ∧ status.lineCount = s.document.lineCount ∧ status.importEndLine = s.boundary.endLine
        ∧ status.theme = s.theme.name ∧ (status.hintsAttached ↔ s.queue.isSome)
  | .source => t = s ∧ answer = .buffer s.document.text
  | .refused e => t = s ∧ answer = .json (.error e)

/-- **One call of a page** meets what it asks for. -/
theorem meets_stepPage (s : Session) (c : PageCall) :
    s.Meets c.decode (s.stepPage c).1 (s.stepPage c).2 := by
  cases c with
  | setSource text => exact ⟨rfl, trivial⟩
  | attachHints => exact ⟨rfl, trivial⟩
  | updateBoundary line => exact ⟨rfl, trivial⟩
  | toggleTheme => exact ⟨rfl, rfl⟩
  | cursorMoved json =>
    cases hread : (read? json : Option Selection) with
    | none =>
      rw [PageCall.decode, stepPage, hread]
      exact ⟨rfl, rfl⟩
    | some selection =>
      rw [PageCall.decode, stepPage, hread]
      exact ⟨rfl, read?_write (⟨(s.cursorMoved selection).2⟩ : HintItem)⟩
  | hintAt json =>
    cases hread : (read? json : Option Selection) with
    | none =>
      rw [PageCall.decode, stepPage, hread]
      exact ⟨rfl, rfl⟩
    | some selection =>
      rw [PageCall.decode, stepPage, hread]
      exact ⟨rfl, read?_write (⟨s.hintAt selection⟩ : HintItem)⟩
  | handleKey json =>
    cases hread : (read? json : Option KeyRequest) with
    | none =>
      rw [PageCall.decode, stepPage, hread]
      exact ⟨rfl, rfl⟩
    | some request =>
      rw [PageCall.decode, stepPage, hread]
      cases hkey : s.handleKey request.key request.selections with
      | mk t response =>
        dsimp only [Meets, step]
        rw [hkey]
        dsimp only
        cases response with
        | error e => exact ⟨rfl, rfl⟩
        | ok response => exact ⟨rfl, read?_write response⟩
  | compile => exact ⟨rfl, read?_write (⟨s.source⟩ : Submission)⟩
  | drain => exact ⟨rfl, read?_write (s.drain.2.getD [])⟩
  | status => exact ⟨rfl, _, rfl, _, read?_write s.status, rfl, rfl, rfl, Iff.rfl⟩
  | sourceText => exact ⟨rfl, rfl⟩

/-! ## Runs -/

/-- The calls of the session among what a page asks for. -/
def callsOf (calls : List PageCall) : List Call := calls.filterMap (·.decode.call?)

/-- **A page leaves the session as its calls do**, and those that cannot be
read do nothing. -/
theorem runPage_eq_run (s : Session) (calls : List PageCall) :
    s.runPage calls = s.run (callsOf calls) := by
  induction calls generalizing s with
  | nil => rfl
  | cons c calls ih =>
    have hmeets := s.meets_stepPage c
    have hstep : s.run (callsOf (c :: calls)) = (s.stepPage c).1.run (callsOf calls) := by
      rw [callsOf, List.filterMap_cons]
      cases hdecode : c.decode with
      | call call | status | source | refused e =>
        rw [hdecode] at hmeets
        rw [hmeets.1]
        rfl
    rw [hstep]
    exact ih _

/-- **A session driven by a page is the session driven by its host**, from
whatever configuration it starts. After any calls of a page it is in the state
that the calls which can be read lead to, and the next call does there what it
asks for: the session goes on as it does by its own call, and what the page is
answered reads back as the answer to it. -/
theorem runPage_refines (s : Session) (calls : List PageCall) (c : PageCall) :
    s.runPage calls = s.run (callsOf calls) ∧
      (s.run (callsOf calls)).Meets c.decode ((s.runPage calls).stepPage c).1
        ((s.runPage calls).stepPage c).2 := by
  rw [runPage_eq_run]
  exact ⟨rfl, meets_stepPage _ c⟩

/-- A page with the light theme and the panel attached, a buffer of four lines of which the
first belongs to the imports, and a call that cannot be read. -/
theorem runPage_refines_light :
    let s := new (Config.ofContents none "[editor]\ntheme = \"light\"\n".toList).1
    let calls : List PageCall := [.attachHints, .setSource "import Html\n\nx = 1\n".toList,
      .updateBoundary 1, .hintAt ['\x7b']]
    s.runPage calls = s.run [.attachHints, .setSource "import Html\n\nx = 1\n".toList,
        .updateBoundary 1]
      ∧ (∃ text, ((s.runPage calls).stepPage .status).2 = .json (.ok text)
        ∧ read? text = some (⟨4, 1, "light".toList, true⟩ : SessionStatus))
      ∧ ((s.runPage calls).stepPage .sourceText).2 = .buffer "import Html\n\nx = 1\n".toList := by
  intro s calls
  have hcalls : callsOf calls = [.attachHints, .setSource "import Html\n\nx = 1\n".toList,
      .updateBoundary 1] := by decide +kernel
  obtain ⟨hrun, -, text, htext, ⟨lines, imports, theme, attached⟩, hread, hlines, himports, htheme,
    hattached⟩ := runPage_refines s calls .status
  obtain ⟨-, -, hsource⟩ := runPage_refines s calls .sourceText
  rw [hcalls] at hrun hlines himports htheme hattached hsource
  obtain rfl : lines = 4 := hlines.trans (by decide +kernel)
  obtain rfl : imports = 1 := himports.trans (by decide +kernel)
  obtain rfl : theme = "light".toList := htheme.trans (by decide +kernel)
  obtain rfl : attached = true := hattached.2 (by decide +kernel)
  exact ⟨hrun, ⟨text, htext, hread⟩, hsource.trans (congrArg _ (by decide +kernel))⟩

end Session

end EditorCore
