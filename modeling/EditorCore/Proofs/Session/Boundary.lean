import EditorCore.Proofs.Session.Keys

/-!
# Who sets the import boundary

The boundary has two writers. The hint panel reports where the imports end; and
where the configuration asks for it, the buffer is looked at whenever it
changes, be it replaced by the host or edited by a key. The last write holds:
after any run the boundary is the end of the import region of the buffer, unless
a report has come in since the buffer last changed, and otherwise it is the last
report, or 0 where there is none (`Session.boundary_run`).

What one call does to buffer and boundary is said once (`Session.BoundaryStep`).
A derived boundary is that of the buffer until the next report
(`Session.Derived.run`), and a reported one stays until the next report or the
next change that counts (`Session.boundary_run_of_quiet`); both go through a run
call by call.
-/

namespace EditorCore

namespace Session

variable {s t : Session} {call : Call} {calls : List Call} {line : UInt32}

/-! ## One call -/

/-- The boundary follows the buffer. -/
def Derives (s : Session) : Prop := s.config.hints.deriveImportBoundary = true

instance (s : Session) : Decidable s.Derives := inferInstanceAs (Decidable (_ = true))

/-- **A call changes the buffer**: it replaces the buffer, or it is a key that
has edits to make. -/
def Changes (s : Session) : Call → Prop
  | .setSource _ => True
  | .handleKey key ss => ∃ plan, (s.handleKey key ss).2 = .ok (.edited plan) ∧ plan.edits ≠ []
  | _ => False

/-- **What a call makes of the buffer and its boundary**, from `s` to `t`. -/
inductive BoundaryStep (s : Session) (call : Call) (t : Session) : Prop
  | reported (line : UInt32) : call = .updateBoundary line → t.document = s.document →
      t.boundary = ⟨line⟩ → BoundaryStep s call t
  | changed : s.Changes call → (∀ line, call ≠ .updateBoundary line) →
      t.boundary = (if s.Derives then ⟨t.document.importRegionEnd⟩ else s.boundary) →
      BoundaryStep s call t
  | kept : ¬ s.Changes call → (∀ line, call ≠ .updateBoundary line) →
      t.document = s.document → t.boundary = s.boundary → BoundaryStep s call t

/-- Replacing the buffer sets the boundary where that follows the buffer. -/
theorem boundary_setSource (s : Session) (text : Text) :
    (s.setSource text).boundary
      = if s.Derives then ⟨(s.setSource text).document.importRegionEnd⟩ else s.boundary := by
  show (if s.config.hints.deriveImportBoundary = true then _ else _) = if s.Derives then _ else _
  rfl

/-- A key press changes the buffer exactly when it has edits to make. -/
theorem boundaryStep_handleKey (s : Session) (key : Text) (ss : List Selection) :
    BoundaryStep s (.handleKey key ss) (s.handleKey key ss).1 := by
  have hstep := keyStep_handleKey s key ss
  have hchanges : s.Changes (.handleKey key ss)
      ↔ ∃ plan, (s.handleKey key ss).2 = .ok (.edited plan) ∧ plan.edits ≠ [] := Iff.rfl
  generalize s.handleKey key ss = outcome at hstep hchanges
  cases hstep with
  | unknown | compiled | outside | passed | overflowed =>
    exact .kept (by simp [hchanges]) nofun rfl rfl
  | edited command plan text =>
    by_cases hnil : plan.edits = []
    · rw [if_pos hnil]
      exact .kept (by simp [hchanges, hnil]) nofun rfl rfl
    · rw [if_neg hnil]
      exact .changed (hchanges.2 ⟨plan, rfl, hnil⟩) nofun (boundary_setSource s text)

/-- **Every call takes one of these ways.** -/
theorem boundaryStep_step (s : Session) (call : Call) : BoundaryStep s call (s.step call).1 := by
  cases call with
  | setSource text => exact .changed trivial nofun (boundary_setSource s text)
  | updateBoundary line => exact .reported line rfl rfl rfl
  | attachHints | toggleTheme | hintAt selection | compile => exact .kept id nofun rfl rfl
  | cursorMoved selection =>
    show BoundaryStep s _ (s.cursorMoved selection).1
    unfold cursorMoved
    split_ifs <;> exact .kept id nofun rfl rfl
  | handleKey key ss => exact boundaryStep_handleKey s key ss
  | drain =>
    show BoundaryStep s _ (Session.drain s).1
    unfold Session.drain
    cases s.queue <;> exact .kept id nofun rfl rfl

/-- **No call changes the configuration.** -/
theorem config_step (s : Session) (call : Call) : (s.step call).1.config = s.config := by
  cases call with
  | setSource | updateBoundary | attachHints | toggleTheme | hintAt | compile => rfl
  | cursorMoved selection =>
    show (s.cursorMoved selection).1.config = _
    unfold cursorMoved
    split_ifs <;> rfl
  | handleKey key ss =>
    show (s.handleKey key ss).1.config = _
    have hstep := keyStep_handleKey s key ss
    generalize s.handleKey key ss = outcome at hstep
    cases hstep with
    | unknown | compiled | outside | passed | overflowed => rfl
    | edited => dsimp only; split_ifs <;> rfl
  | drain =>
    show (Session.drain s).1.config = _
    unfold Session.drain
    cases s.queue <;> rfl

/-- **What is no report, and no change that counts, leaves the boundary.** -/
theorem boundary_step_of_quiet (hreport : ∀ line, call ≠ .updateBoundary line)
    (hquiet : ¬ (s.Derives ∧ s.Changes call)) : (s.step call).1.boundary = s.boundary := by
  cases boundaryStep_step s call with
  | reported line hcall => exact absurd hcall (hreport line)
  | changed hchanges _ hboundary =>
    rw [hboundary, if_neg fun hderives => hquiet ⟨hderives, hchanges⟩]
  | kept _ _ _ hboundary => exact hboundary

/-! ## Runs -/

theorem run_cons (s : Session) (call : Call) (calls : List Call) :
    s.run (call :: calls) = (s.step call).1.run calls := rfl

theorem run_append (s : Session) (before after : List Call) :
    s.run (before ++ after) = (s.run before).run after := List.foldl_append

/-- A run does not change what the boundary follows. -/
theorem derives_run (s : Session) (calls : List Call) : (s.run calls).Derives ↔ s.Derives := by
  induction calls generalizing s with
  | nil => exact Iff.rfl
  | cons call calls ih =>
    rw [run_cons, ih, Derives, Derives, config_step]

/-- **The boundary is derived**: it follows the buffer, and is where the import
region of the buffer ends. -/
structure Derived (s : Session) : Prop where
  derives : s.Derives
  endLine_eq : s.boundary.endLine = s.document.importRegionEnd

/-- A change of the buffer derives the boundary. -/
theorem derived_step (hderives : s.Derives) (hchanges : s.Changes call) :
    (s.step call).1.Derived := by
  refine ⟨(derives_run s [call]).2 hderives, ?_⟩
  cases boundaryStep_step s call with
  | reported line hcall =>
    rw [hcall] at hchanges
    exact hchanges.elim
  | changed _ _ hboundary => rw [hboundary, if_pos hderives]
  | kept hnot => exact absurd hchanges hnot

/-- **A derived boundary is derived until the next report.** -/
theorem Derived.step (h : s.Derived) (hreport : ∀ line, call ≠ .updateBoundary line) :
    (s.step call).1.Derived := by
  refine ⟨(derives_run s [call]).2 h.derives, ?_⟩
  cases boundaryStep_step s call with
  | reported line hcall => exact absurd hcall (hreport line)
  | changed _ _ hboundary => rw [hboundary, if_pos h.derives]
  | kept _ _ hdocument hboundary => rw [hboundary, hdocument, h.endLine_eq]

theorem Derived.run (h : s.Derived) (hreports : ∀ line, .updateBoundary line ∉ calls) :
    (s.run calls).Derived := by
  induction calls generalizing s with
  | nil => exact h
  | cons call calls ih =>
    rw [run_cons]
    refine ih (h.step fun line hcall => ?_) fun line hmem => ?_
    · exact hreports line (hcall ▸ List.mem_cons_self)
    · exact hreports line (List.mem_cons_of_mem call hmem)

/-- The buffer changes in the course of a run. -/
def ChangesDuring (s : Session) (calls : List Call) : Prop :=
  ∃ before call after, calls = before ++ call :: after ∧ (s.run before).Changes call

theorem not_changesDuring_nil (s : Session) : ¬ s.ChangesDuring [] := by
  rintro ⟨before, call, after, hsplit, -⟩
  exact absurd hsplit (by simp)

theorem changesDuring_cons (s : Session) (call : Call) (calls : List Call) :
    s.ChangesDuring (call :: calls)
      ↔ s.Changes call ∨ (s.step call).1.ChangesDuring calls := by
  constructor
  · rintro ⟨before, c, after, hsplit, hchanges⟩
    cases before with
    | nil =>
      obtain ⟨rfl, rfl⟩ := List.cons.inj hsplit
      exact .inl hchanges
    | cons b before =>
      obtain ⟨rfl, rfl⟩ := List.cons.inj hsplit
      exact .inr ⟨before, c, after, rfl, hchanges⟩
  · rintro (hchanges | ⟨before, c, after, rfl, hchanges⟩)
    · exact ⟨[], call, calls, rfl, hchanges⟩
    · exact ⟨call :: before, c, after, rfl, hchanges⟩

/-- **Without reports, and without changes that count, the boundary stays.** -/
theorem boundary_run_of_quiet (hreports : ∀ line, .updateBoundary line ∉ calls)
    (hquiet : s.Derives → ¬ s.ChangesDuring calls) : (s.run calls).boundary = s.boundary := by
  induction calls generalizing s with
  | nil => rfl
  | cons call calls ih =>
    have hstep : (s.step call).1.boundary = s.boundary := by
      refine boundary_step_of_quiet (fun line hcall => ?_) fun ⟨hderives, hchanges⟩ => ?_
      · exact hreports line (hcall ▸ List.mem_cons_self)
      · exact hquiet hderives ((changesDuring_cons s call calls).2 (.inl hchanges))
    rw [run_cons, ih (fun line hmem => hreports line (List.mem_cons_of_mem call hmem)), hstep]
    intro hderives hchanges
    refine hquiet ((derives_run s [call]).1 hderives) ?_
    exact (changesDuring_cons s call calls).2 (.inr hchanges)

/-! ## The last write -/

/-- **The buffer has changed, and no report has come in since.** -/
def ChangedLast (s : Session) (calls : List Call) : Prop :=
  ∃ before call after, calls = before ++ call :: after ∧ (s.run before).Changes call
    ∧ ∀ line, .updateBoundary line ∉ after

/-- **The last report is `line`**, and no boundary has been derived since. -/
def ReportedLast (s : Session) (calls : List Call) (line : UInt32) : Prop :=
  ∃ before after, calls = before ++ .updateBoundary line :: after
    ∧ (∀ later, .updateBoundary later ∉ after)
    ∧ (s.Derives → ¬ (s.run (before ++ [.updateBoundary line])).ChangesDuring after)

/-- **There has been no report**, and no boundary has been derived. -/
def Unset (s : Session) (calls : List Call) : Prop :=
  (∀ line, .updateBoundary line ∉ calls) ∧ (s.Derives → ¬ s.ChangesDuring calls)

theorem changesDuring_concat (s : Session) (calls : List Call) (call : Call) :
    s.ChangesDuring (calls ++ [call]) ↔ s.ChangesDuring calls ∨ (s.run calls).Changes call := by
  induction calls generalizing s with
  | nil =>
    rw [List.nil_append, changesDuring_cons, or_comm]
    exact or_congr (iff_of_false (not_changesDuring_nil _) (not_changesDuring_nil _)) Iff.rfl
  | cons c calls ih =>
    rw [List.cons_append, changesDuring_cons, ih, changesDuring_cons, or_assoc, run_cons]

theorem forall_notMem_concat (hreports : ∀ line, .updateBoundary line ∉ calls)
    (hreport : ∀ line, call ≠ .updateBoundary line) (line : UInt32) :
    .updateBoundary line ∉ calls ++ [call] := by
  rw [List.mem_append, List.mem_singleton, not_or]
  exact ⟨hreports line, (hreport line).symm⟩

/-- **One of the three is the case** after any run. -/
theorem exists_last (s : Session) (calls : List Call) :
    s.Derives ∧ s.ChangedLast calls ∨ (∃ line, s.ReportedLast calls line) ∨ s.Unset calls := by
  induction calls using List.reverseRecOn with
  | nil => exact .inr (.inr ⟨nofun, fun _ => not_changesDuring_nil s⟩)
  | append_singleton calls call ih =>
    by_cases hcall : ∃ line, call = .updateBoundary line
    · obtain ⟨line, rfl⟩ := hcall
      exact .inr (.inl ⟨line, calls, [], rfl, nofun, fun _ => not_changesDuring_nil _⟩)
    have hreport : ∀ line, call ≠ .updateBoundary line := fun line h => hcall ⟨line, h⟩
    by_cases hchanges : s.Derives ∧ (s.run calls).Changes call
    · exact .inl ⟨hchanges.1, calls, call, [], rfl, hchanges.2, nofun⟩
    -- the call is no write, so what was last written is so still
    rcases ih with ⟨hderives, before, c, after, rfl, hc, hreports⟩ |
      ⟨line, before, after, rfl, hreports, hquiet⟩ | ⟨hreports, hquiet⟩
    · exact .inl ⟨hderives, before, c, after ++ [call], by simp, hc,
        forall_notMem_concat hreports hreport⟩
    · refine .inr (.inl ⟨line, before, after ++ [call], by simp,
        forall_notMem_concat hreports hreport, fun hderives hduring => ?_⟩)
      rw [changesDuring_concat, ← run_append, List.append_assoc] at hduring
      exact hduring.elim (hquiet hderives) fun h => hchanges ⟨hderives, h⟩
    · refine .inr (.inr ⟨forall_notMem_concat hreports hreport, fun hderives hduring => ?_⟩)
      rw [changesDuring_concat] at hduring
      exact hduring.elim (hquiet hderives) fun h => hchanges ⟨hderives, h⟩

/-- **The import boundary is what was last written to it.** Where it follows the
buffer, and the buffer has changed and not been reported on since, it is the end
of the import region of the buffer as it is; otherwise it is the last report, or
0 where there has been none. Nothing but reports and such changes moves it, in
any state of a session. -/
theorem boundary_run (config : Config) (calls : List Call) :
    ((new config).Derives ∧ (new config).ChangedLast calls
        ∨ (∃ line, (new config).ReportedLast calls line) ∨ (new config).Unset calls)
    ∧ ((new config).Derives → (new config).ChangedLast calls →
        ((new config).run calls).boundary.endLine
          = (Document.ofText ((new config).run calls).source).importRegionEnd)
    ∧ (∀ line, (new config).ReportedLast calls line →
        ((new config).run calls).boundary.endLine = line)
    ∧ ((new config).Unset calls → ((new config).run calls).boundary.endLine = 0)
    ∧ ∀ (s : Session) (call : Call), (∀ line, call ≠ .updateBoundary line) →
        ¬ (s.Derives ∧ s.Changes call) → (s.step call).1.boundary = s.boundary := by
  refine ⟨exists_last _ calls, ?_, ?_, ?_, fun s call => boundary_step_of_quiet⟩
  · rintro hderives ⟨before, call, after, rfl, hchanges, hreports⟩
    have hstep := derived_step ((derives_run _ before).2 hderives) hchanges
    have hrun := (hstep.run hreports).endLine_eq
    rw [run_append, run_cons, hrun, source, ← Document.eq_ofText]
  · rintro line ⟨before, after, rfl, hreports, hquiet⟩
    rw [List.append_cons, run_append, boundary_run_of_quiet hreports fun hderives => ?_, run_append]
    · rfl
    · exact hquiet ((derives_run _ _).1 hderives)
  · rintro ⟨hreports, hquiet⟩
    rw [boundary_run_of_quiet hreports hquiet]
    rfl

/-- Backspace takes away what began the first declaration, so that the region
goes on to the end; the report from before is written over. -/
theorem boundary_run_backspace :
    let calls : List Call := [.setSource "import A\n()".toList, .updateBoundary 7,
      .handleKey "Backspace".toList [.cursor ⟨1, 1⟩], .handleKey "Tab".toList [.cursor ⟨9, 0⟩]]
    let s := new { hints := { deriveImportBoundary := true } }
    s.Derives ∧ s.ChangedLast calls
    ∧ (s.run calls).boundary.endLine = (Document.ofText (s.run calls).source).importRegionEnd := by
  have hlast : (new { hints := { deriveImportBoundary := true } }).ChangedLast
      [.setSource "import A\n()".toList, .updateBoundary 7,
        .handleKey "Backspace".toList [.cursor ⟨1, 1⟩],
        .handleKey "Tab".toList [.cursor ⟨9, 0⟩]] := by
    refine ⟨[.setSource "import A\n()".toList, .updateBoundary 7], _, _, rfl,
      ⟨⟨[.delete ⟨1, 0⟩ ⟨1, 2⟩], [.cursor ⟨1, 0⟩]⟩, ?_, List.cons_ne_nil _ _⟩, by simp⟩
    decide +kernel
  exact ⟨rfl, hlast, (boundary_run _ _).2.1 rfl hlast⟩

end Session

end EditorCore
