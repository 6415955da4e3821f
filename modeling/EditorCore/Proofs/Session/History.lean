import EditorCore.Proofs.Session.Keys

/-!
# What the hint panel is told

The queue to the hint panel is written from many calls and rewritten in place
at its back, so what a host takes from it is best said without the queue. A
session has a **history**: everything it had to tell the panel since the panel
was attached or the messages were last taken, in order and nothing left out.
What the host takes is that history with every run of cursor moves collapsed
to its last one (`Session.drain_run_eq_collapse`).

One call keeps the two in step (`Session.queue_step`), whatever state the
session is in, and a run is one call after the other. What the host may rely
on is then read off `HintMessage.collapse` alone: submissions all come through
in order, and cursor moves stand only between them.
-/

namespace EditorCore

namespace HintMessage

/-! ## Collapsing runs of cursor moves -/

/-- **The last of every run of cursor moves**, and all that is no cursor
move. -/
def collapse : List HintMessage → List HintMessage
  | [] => []
  | m :: ms => if m.isMove && ms.head?.any (·.isMove) then collapse ms else m :: collapse ms

/-- No two cursor moves follow each other. -/
def Parted (ms : List HintMessage) : Prop := ms.IsChain fun m n => ¬ (m.isMove ∧ n.isMove)

variable {m : HintMessage} {ms : List HintMessage}

theorem collapse_cons_of_move (hm : m.isMove) (hms : ms.head?.any (·.isMove)) :
    collapse (m :: ms) = collapse ms := by
  rw [collapse, hm, hms]
  rfl

theorem collapse_cons_of_not (h : ¬ (m.isMove ∧ ms.head?.any (·.isMove))) :
    collapse (m :: ms) = m :: collapse ms := by
  rw [← Bool.and_eq_true] at h
  rw [collapse, if_neg h]

/-- Collapsing keeps the last message. -/
theorem getLast?_collapse (ms : List HintMessage) : (collapse ms).getLast? = ms.getLast? := by
  induction ms with
  | nil => rfl
  | cons m ms ih =>
    cases ms with
    | nil =>
      rw [collapse_cons_of_not (by simp)]
      rfl
    | cons n ms =>
      rw [List.getLast?_cons_cons]
      by_cases h : m.isMove ∧ (n :: ms).head?.any (·.isMove)
      · rw [collapse_cons_of_move h.1 h.2, ih]
      · rw [collapse_cons_of_not h, List.getLast?_cons, ih, List.getLast?_cons]
        rfl

theorem collapse_ne_nil (h : ms ≠ []) : collapse ms ≠ [] := by
  rwa [Ne, ← List.getLast?_eq_none_iff, getLast?_collapse, List.getLast?_eq_none_iff]

/-- **Submissions are neither lost, nor repeated, nor moved.** -/
theorem filter_collapse (ms : List HintMessage) :
    (collapse ms).filter (!·.isMove) = ms.filter (!·.isMove) := by
  induction ms with
  | nil => rfl
  | cons m ms ih =>
    by_cases h : m.isMove ∧ ms.head?.any (·.isMove)
    · rw [collapse_cons_of_move h.1 h.2, ih, List.filter_cons_of_neg (by simp [h.1])]
    · rw [collapse_cons_of_not h, List.filter_cons, List.filter_cons, ih]

/-- The first message is a cursor move after collapsing if it was one. -/
theorem isMove_head?_collapse (ms : List HintMessage) :
    (collapse ms).head?.any (·.isMove) = ms.head?.any (·.isMove) := by
  induction ms with
  | nil => rfl
  | cons m ms ih =>
    by_cases h : m.isMove ∧ ms.head?.any (·.isMove)
    · rw [collapse_cons_of_move h.1 h.2, ih, h.2]
      exact h.1.symm
    · rw [collapse_cons_of_not h]
      rfl

/-- **Two cursor moves never follow each other.** -/
theorem parted_collapse (ms : List HintMessage) : Parted (collapse ms) := by
  induction ms with
  | nil => exact .nil
  | cons m ms ih =>
    by_cases h : m.isMove ∧ ms.head?.any (·.isMove)
    · rwa [collapse_cons_of_move h.1 h.2]
    · rw [collapse_cons_of_not h]
      rw [← isMove_head?_collapse] at h
      refine List.isChain_cons.2 ⟨fun n hn hmn => h ⟨hmn.1, ?_⟩, ih⟩
      rw [Option.mem_def.1 hn]
      exact hmn.2

/-- **Cursor moves that never follow each other outnumber the other messages
by one at most.** -/
theorem countP_isMove_le (h : Parted ms) :
    ms.countP (·.isMove) ≤ ms.countP (!·.isMove) + 1 := by
  -- the one more is only there where the list starts with a cursor move
  suffices hstart : ms.countP (·.isMove)
      ≤ ms.countP (!·.isMove) + if ms.head?.any (·.isMove) then 1 else 0 by
    split_ifs at hstart <;> omega
  induction ms with
  | nil => exact Nat.le_refl 0
  | cons m ms ih =>
    obtain ⟨hm, hms⟩ := List.isChain_cons.1 h
    have hrest := ih hms
    rw [List.countP_cons, List.countP_cons]
    by_cases hmove : m.isMove
    · have hnext : ¬ ms.head?.any (·.isMove) := by
        intro hany
        obtain ⟨n, hn, hnmove⟩ := (Option.any_eq_true _ _).1 hany
        exact hm n hn ⟨hmove, hnmove⟩
      rw [if_neg hnext] at hrest
      simp only [hmove, List.head?_cons, Option.any_some, Bool.not_true, Bool.false_eq_true,
        if_true, if_false]
      omega
    · simp only [hmove, List.head?_cons, Option.any_some, Bool.not_false, Bool.false_eq_true,
        if_true, if_false]
      split_ifs at hrest <;> omega

end HintMessage

namespace HintQueue

open HintMessage

/-- A message joins a queue at its back, away from what comes before. -/
theorem push_cons {m n : HintMessage} {ms : List HintMessage} (h : ms ≠ []) :
    (push ⟨n :: ms⟩ m).messages = n :: (push ⟨ms⟩ m).messages := by
  obtain ⟨k, ks, rfl⟩ := List.exists_cons_of_ne_nil h
  unfold push
  rw [List.getLast?_cons_cons, List.dropLast_cons_cons]
  split_ifs <;> rfl

/-- **The queue collapses as it is written**: adding a message to the collapsed
history collapses the history with that message. -/
theorem push_collapse (ms : List HintMessage) (m : HintMessage) :
    (push ⟨collapse ms⟩ m).messages = collapse (ms ++ [m]) := by
  induction ms with
  | nil =>
    rw [List.nil_append, collapse_cons_of_not (by simp)]
    cases m <;> rfl
  | cons n ms ih =>
    cases ms with
    | nil => cases m <;> cases n <;> rfl
    | cons k ks =>
      rw [List.cons_append]
      by_cases h : n.isMove ∧ (k :: ks).head?.any (·.isMove)
      · rw [collapse_cons_of_move h.1 h.2, ih]
        exact (@collapse_cons_of_move n (k :: ks ++ [m]) h.1 h.2).symm
      · rw [collapse_cons_of_not h, push_cons (collapse_ne_nil (List.cons_ne_nil k ks)), ih]
        exact (@collapse_cons_of_not n (k :: ks ++ [m]) h).symm

end HintQueue

namespace Session

open HintMessage

variable {s : Session} {log : Option (List HintMessage)}

/-! ## The history of a run -/

/-- **What a call has to tell the hint panel**, once that is attached: where
cursor moves are reported, the hint at the selection in the session as it is;
and the buffer as it is when it is compiled, by a call or by a key. -/
def told (s : Session) : Call → List HintMessage
  | .cursorMoved selection =>
    if s.config.hints.enabled then [.cursorMoved (s.hintAt selection)] else []
  | .compile => [.submitted s.source]
  | .handleKey key _ =>
    if KeyBinding.ofName? key = some .compile then [.submitted s.source] else []
  | _ => []

/-- **The history after one more call**: what there was to tell since the panel
was attached or the messages were last taken; `none` before the panel is
attached. -/
def record (s : Session) (log : Option (List HintMessage)) : Call → Option (List HintMessage)
  | .attachHints => some []
  | .drain => log.map fun _ => []
  | call => log.map (· ++ s.told call)

/-- **The history of a run.** -/
def history (s : Session) (log : Option (List HintMessage)) :
    List Call → Option (List HintMessage)
  | [] => log
  | call :: calls => (s.step call).1.history (s.record log call) calls

/-- The queue holds a collapsed history. -/
def Keeps (s : Session) (log : Option (List HintMessage)) : Prop :=
  s.queue = log.map fun ms => ⟨collapse ms⟩

theorem keeps_new {config : Config} : (new config).Keeps none := rfl

theorem Keeps.told_nil (h : s.Keeps log) : s.Keeps (log.map (· ++ [])) := by
  simpa [Keeps] using h

/-- A key that does not compile has nothing to tell. -/
theorem told_handleKey_of_ne {key : Text} (h : KeyBinding.ofName? key ≠ some .compile)
    (ss : List Selection) : s.told (.handleKey key ss) = [] := if_neg h

theorem told_handleKey_compile {key : Text} (h : KeyBinding.ofName? key = some .compile)
    (ss : List Selection) : s.told (.handleKey key ss) = [.submitted s.source] := if_pos h

/-- Telling the panel a message adds it to the history. -/
theorem Keeps.tell (h : s.Keeps log) (m : HintMessage) :
    (s.tell m).Keeps (log.map (· ++ [m])) := by
  unfold Keeps Session.tell at *
  rw [h, Option.map_map, Option.map_map]
  refine Option.map_congr fun ms _ => ?_
  exact congrArg HintQueue.mk (HintQueue.push_collapse ms m)

/-- A key press tells the panel the buffer when it compiles, and nothing
else. -/
theorem Keeps.handleKey (h : s.Keeps log) (key : Text) (ss : List Selection) :
    (s.handleKey key ss).1.Keeps (log.map (· ++ s.told (.handleKey key ss))) := by
  have hstep := keyStep_handleKey s key ss
  generalize s.handleKey key ss = outcome at hstep ⊢
  cases hstep with
  | compiled hkey =>
    rw [told_handleKey_compile hkey]
    exact h.tell _
  | unknown hkey | outside _ _ hkey | passed _ hkey | overflowed _ hkey =>
    rw [told_handleKey_of_ne (by simp [hkey])]
    exact h.told_nil
  | edited command plan text hkey =>
    rw [told_handleKey_of_ne (by simp [hkey])]
    split_ifs
    · exact h.told_nil
    · exact h.told_nil

/-- **One call keeps the queue and the history in step.** -/
theorem queue_step (h : s.Keeps log) (call : Call) :
    (s.step call).1.Keeps (s.record log call) := by
  cases call with
  | setSource text => exact h.told_nil
  | attachHints => rfl
  | updateBoundary line => exact h.told_nil
  | toggleTheme => exact h.told_nil
  | cursorMoved selection =>
    show (s.cursorMoved selection).1.Keeps (log.map (· ++ s.told (.cursorMoved selection)))
    unfold cursorMoved told reports
    cases s.config.hints.enabled with
    | false => exact h.told_nil
    | true =>
      cases hqueue : s.queue with
      | none =>
        -- no panel is attached, so there is no history to add to
        have hlog : log = none := by simpa [Keeps, hqueue] using h.symm
        rw [hlog]
        exact hqueue
      | some queue => exact h.tell _
  | hintAt selection => exact h.told_nil
  | handleKey key selections => exact h.handleKey key selections
  | compile => exact h.tell _
  | drain =>
    show (Session.drain s).1.Keeps (log.map fun _ => [])
    unfold Keeps Session.drain at *
    cases log with
    | none =>
      rw [h]
      exact h
    | some ms =>
      rw [h]
      rfl

/-- **A run keeps the queue and the history in step.** -/
theorem queue_run (h : s.Keeps log) (calls : List Call) :
    (s.run calls).Keeps (s.history log calls) := by
  induction calls generalizing s log with
  | nil => exact h
  | cons call calls ih => exact ih (queue_step h call)

/-- There is a history once the panel has been attached. -/
theorem isSome_history (calls : List Call) :
    (s.history log calls).isSome ↔ log.isSome ∨ Call.attachHints ∈ calls := by
  induction calls generalizing s log with
  | nil => simp [history]
  | cons call calls ih =>
    rw [history, ih, List.mem_cons, ← or_assoc]
    refine or_congr_left ?_
    cases call <;> simp [record]

/-- **What a host takes from the queue is the history with every run of cursor
moves collapsed to its last.** So all submissions come through, in order; two
cursor moves never follow each other; and there is at most one more of them
than there are submissions. -/
theorem drain_run_eq_collapse (config : Config) (calls : List Call) :
    (((new config).run calls).step .drain).2
        = .messages (((new config).history none calls).map collapse)
    ∧ (((new config).history none calls).isSome ↔ Call.attachHints ∈ calls)
    ∧ ∀ taken, (((new config).run calls).step .drain).2 = .messages (some taken) →
        ∃ ms, (new config).history none calls = some ms
          ∧ taken.filter (!·.isMove) = ms.filter (!·.isMove)
          ∧ taken.IsChain (fun m n => ¬ (m.isMove ∧ n.isMove))
          ∧ taken.countP (·.isMove) ≤ taken.countP (!·.isMove) + 1 := by
  have hkeeps : ((new config).run calls).Keeps ((new config).history none calls) :=
    queue_run keeps_new calls
  have hdrain : (((new config).run calls).step .drain).2
      = .messages (((new config).history none calls).map collapse) := by
    show Answer.messages (Session.drain _).2 = _
    unfold Keeps at hkeeps
    unfold Session.drain
    rw [hkeeps]
    cases (new config).history none calls <;> rfl
  refine ⟨hdrain, by simpa using @isSome_history (new config) none calls, fun taken htaken => ?_⟩
  rw [hdrain, Answer.messages.injEq, Option.map_eq_some_iff] at htaken
  obtain ⟨ms, hms, rfl⟩ := htaken
  exact ⟨ms, hms, filter_collapse ms, parted_collapse ms, countP_isMove_le (parted_collapse ms)⟩

end Session

end EditorCore
