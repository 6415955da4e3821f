import EditorCore.Text.Columns

/-!
# The hint queue

What the editor tells the hint panel waits in a queue until the host takes
it. Only the latest cursor move is of interest to the panel, so a move
replaces a move at the back of the queue; a submission is never replaced.
-/

namespace EditorCore

/-- A message for the hint panel. -/
inductive HintMessage
  /-- The cursor moved to where there is this hint, or none. -/
  | cursorMoved (hint : Option Text)
  /-- The buffer was submitted. -/
  | submitted (source : Text)
  deriving DecidableEq, Repr

/-- The message is a cursor move. -/
def HintMessage.isMove : HintMessage → Bool
  | cursorMoved _ => true
  | submitted _ => false

/-- **The messages not yet taken**, oldest first. -/
structure HintQueue where
  messages : List HintMessage := []
  deriving DecidableEq, Repr

namespace HintQueue

/-- The queue with no message. -/
def empty : HintQueue := {}

/-- The number of messages waiting. -/
def size (q : HintQueue) : Nat := q.messages.length

/-- No message is waiting. -/
def isEmpty (q : HintQueue) : Bool := q.messages.isEmpty

/-- **Adds a message.** A cursor move takes the place of one at the back. -/
def push (q : HintQueue) (m : HintMessage) : HintQueue :=
  if m.isMove && q.messages.getLast?.any (·.isMove) then ⟨q.messages.dropLast ++ [m]⟩
  else ⟨q.messages ++ [m]⟩

/-- Takes all messages. -/
def drain (q : HintQueue) : List HintMessage × HintQueue := (q.messages, empty)

end HintQueue

end EditorCore
