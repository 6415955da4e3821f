import EditorCore.Proofs.Document.Tiling
import EditorCore.Proofs.Edit.Command
import EditorCore.Session

/-!
# What a key press can do

A key press ends in one of six ways (`Session.KeyStep`), and each says what
becomes of the session: an unknown key, an end of a selection outside the
buffer, widths that are no words and a key that is passed on leave it as it is,
`compile` tells the hint panel, and an edit replaces the buffer.

A seventh way is in the types but never taken. A plan that overlaps itself
could not be applied, but selections are brought into normal form before a
command sees them, and what commands plan for those is in ascending order.
So every planned edit is made, and a key press fails only over what the host
asked for and over what its settings make of it (`Session.handleKey_outcome`).
-/

namespace EditorCore

namespace Document

/-- A position lies within a document when its line is one of the lines and
its column no further than the end of that line. -/
theorem contains_iff {d : Document} {p : Position} :
    d.contains p ↔ p.line < d.lineCount ∧ p.column ≤ d.lineLength p.line := by
  rw [contains, Bool.and_eq_true, decide_eq_true_eq, decide_eq_true_eq]

end Document

namespace Session

variable {s : Session} {key : Text} {ss : List Selection}

/-! ## The first end outside -/

/-- The ends of selections in the order they are checked, the anchor of each
before its head. -/
def ends (ss : List Selection) : List Position := ss.flatMap fun t => [t.anchor, t.head]

/-- **The first end that lies outside the buffer.** -/
def IsFirstOutside (s : Session) (ss : List Selection) (p : Position) : Prop :=
  ∃ inside rest, ends ss = inside ++ p :: rest
    ∧ (∀ q ∈ inside, q.line < s.document.lineCount ∧ q.column ≤ s.document.lineLength q.line)
    ∧ ¬ (p.line < s.document.lineCount ∧ p.column ≤ s.document.lineLength p.line)

/-- All ends lie within the buffer. -/
def Inside (s : Session) (ss : List Selection) : Prop :=
  ∀ t ∈ ss, s.document.contains t.anchor ∧ s.document.contains t.head

theorem forall_mem_ends {P : Position → Prop} {ss : List Selection} :
    (∀ p ∈ ends ss, P p) ↔ ∀ t ∈ ss, P t.anchor ∧ P t.head := by
  refine ⟨fun h t ht => ?_, fun h p hp => ?_⟩
  · exact ⟨h _ (List.mem_flatMap.2 ⟨t, ht, List.mem_cons_self⟩),
      h _ (List.mem_flatMap.2 ⟨t, ht, List.mem_cons_of_mem _ List.mem_cons_self⟩)⟩
  · obtain ⟨t, ht, hp⟩ := List.mem_flatMap.1 hp
    simp only [List.mem_cons, List.not_mem_nil, or_false] at hp
    rcases hp with rfl | rfl
    · exact (h t ht).1
    · exact (h t ht).2

theorem firstOutside?_eq_some_iff {p : Position} :
    s.firstOutside? ss = some p ↔ s.IsFirstOutside ss p := by
  rw [firstOutside?, ← ends, List.find?_eq_some_iff_append, IsFirstOutside]
  simp only [← Document.contains_iff, Bool.not_not, Bool.not_eq_true', Bool.not_eq_true]
  exact ⟨fun ⟨hp, inside, rest, hsplit, hinside⟩ => ⟨inside, rest, hsplit, hinside, hp⟩,
    fun ⟨inside, rest, hsplit, hinside, hp⟩ => ⟨hp, inside, rest, hsplit, hinside⟩⟩

theorem firstOutside?_eq_none_iff : s.firstOutside? ss = none ↔ s.Inside ss := by
  rw [firstOutside?, ← ends, List.find?_eq_none, Inside,
    ← forall_mem_ends (P := fun p => s.document.contains p = true)]
  simp

theorem not_isFirstOutside (h : s.Inside ss) (p : Position) : ¬ s.IsFirstOutside ss p := by
  rw [← firstOutside?_eq_some_iff, firstOutside?_eq_none_iff.2 h]
  exact nofun

/-! ## One key press -/

/-- **How a key press may end**: with which session, and with which
answer. -/
inductive KeyStep (s : Session) (key : Text) (ss : List Selection) :
    Session × Except SessionError KeyResponse → Prop
  | unknown : KeyBinding.ofName? key = none → KeyStep s key ss (s, .error (.unknownKey key))
  | compiled : KeyBinding.ofName? key = some .compile →
      KeyStep s key ss (s.compile.1, .ok (.compiled s.source))
  | outside (command : EditCommand) (p : Position) :
      KeyBinding.ofName? key = some (.edit command) → s.IsFirstOutside ss p →
      KeyStep s key ss (s, .error (.outOfRange p))
  | passed (command : EditCommand) :
      KeyBinding.ofName? key = some (.edit command) → s.Inside ss →
      command.plan s.document.source (Selection.normalize ss) s.config.indentSettings
        = some .pass →
      KeyStep s key ss (s, .ok .pass)
  | overflowed (command : EditCommand) :
      KeyBinding.ofName? key = some (.edit command) → s.Inside ss →
      command.plan s.document.source (Selection.normalize ss) s.config.indentSettings = none →
      KeyStep s key ss (s, .error .overflow)
  | edited (command : EditCommand) (plan : EditPlan) (text : Text) :
      KeyBinding.ofName? key = some (.edit command) → s.Inside ss →
      command.plan s.document.source (Selection.normalize ss) s.config.indentSettings
        = some (.edit plan) →
      plan.apply s.source = .ok text →
      KeyStep s key ss
        (if plan.edits = [] then s else s.setSource text, .ok (.edited plan))

/-- **A key press ends in one of these ways.** The plan of a command is in
ascending order, so it applies. -/
theorem keyStep_handleKey (s : Session) (key : Text) (ss : List Selection) :
    KeyStep s key ss (s.handleKey key ss) := by
  unfold handleKey
  split
  · rename_i hkey
    exact .unknown hkey
  · rename_i hkey
    exact .compiled hkey
  · rename_i command hkey
    split
    · rename_i p hp
      exact .outside command p hkey (firstOutside?_eq_some_iff.1 hp)
    · rename_i hinside
      rw [firstOutside?_eq_none_iff] at hinside
      split
      · rename_i hplan
        exact .overflowed command hkey hinside hplan
      · rename_i hplan
        exact .passed command hkey hinside hplan
      · rename_i plan hplan
        have hascending := EditCommand.ascending_plan s.document.lineText_eq_line
          (Selection.pairwise_normalize ss) hplan
        have happly := EditPlan.apply_of_ascending hascending s.source
        have hstep := KeyStep.edited command plan _ hkey hinside hplan happly
        rw [happly]
        split_ifs with hnil
        · rwa [if_pos hnil] at hstep
        · rwa [if_neg hnil] at hstep

/-- The buffer after an edit is what the plan makes of it. -/
theorem source_edited {plan : EditPlan} {text : Text} (h : plan.apply s.source = .ok text) :
    (if plan.edits = [] then s else s.setSource text).source = text := by
  split_ifs with hnil
  · have happly : plan.apply s.source = .ok s.source := by
      rw [EditPlan.apply, hnil]
      rfl
    exact Except.ok.inj (happly.symm.trans h)
  · rfl

/-- **A key whose command plans an edit makes it**, given selections within the
buffer. -/
theorem handleKey_edit {command : EditCommand} {plan : EditPlan}
    (hkey : KeyBinding.ofName? key = some (.edit command)) (hinside : s.Inside ss)
    (hplan : command.plan s.document.source (Selection.normalize ss) s.config.indentSettings
      = some (.edit plan)) :
    (s.handleKey key ss).2 = .ok (.edited plan)
      ∧ plan.apply s.source = .ok (s.handleKey key ss).1.source
      ∧ (s.handleKey key ss).1.config = s.config := by
  have hcommand : ∀ other, KeyBinding.ofName? key = some (.edit other) → other = command :=
    fun other hother => KeyBinding.edit.inj (Option.some.inj (hother.symm.trans hkey))
  have hstep := keyStep_handleKey s key ss
  generalize s.handleKey key ss = outcome at hstep ⊢
  cases hstep with
  | unknown hunknown => exact absurd (hkey.symm.trans hunknown) nofun
  | compiled hcompile => exact absurd (hkey.symm.trans hcompile) nofun
  | outside other p _ hfirst => exact absurd hfirst (not_isFirstOutside hinside p)
  | passed other hother _ hpass =>
    obtain rfl := hcommand other hother
    exact absurd (hplan.symm.trans hpass) nofun
  | overflowed other hother _ hnone =>
    obtain rfl := hcommand other hother
    exact absurd (hplan.symm.trans hnone) nofun
  | edited other plan' text hother _ hplan' happly =>
    obtain rfl := hcommand other hother
    obtain rfl := KeyOutcome.edit.inj (Option.some.inj (hplan.symm.trans hplan'))
    refine ⟨rfl, ?_, ?_⟩
    · rw [source_edited happly]
      exact happly
    · dsimp only
      split_ifs <;> rfl

/-- **What a key does with selections within the buffer** depends on what its command plans. -/
theorem handleKey_of_inside {command : EditCommand}
    (hkey : KeyBinding.ofName? key = some (.edit command)) (hinside : s.Inside ss) :
    s.handleKey key ss =
      match command.plan s.document.source (Selection.normalize ss) s.config.indentSettings with
      | none => (s, .error .overflow)
      | some .pass => (s, .ok .pass)
      | some (.edit plan) =>
        if plan.edits = [] then (s, .ok (.edited plan))
        else match plan.apply s.source with
          | .error e => (s, .error (.edit e))
          | .ok text => (s.setSource text, .ok (.edited plan)) := by
  rw [handleKey, hkey]
  dsimp only
  rewrite [firstOutside?_eq_none_iff.2 hinside]
  rfl

/-- **A key whose command plans selections alone** leaves the session as it is. -/
theorem handleKey_of_edits_nil {command : EditCommand} {plan : EditPlan}
    (hkey : KeyBinding.ofName? key = some (.edit command)) (hinside : s.Inside ss)
    (hplan : command.plan s.document.source (Selection.normalize ss) s.config.indentSettings
      = some (.edit plan)) (hnil : plan.edits = []) :
    s.handleKey key ss = (s, .ok (.edited plan)) := by
  rw [handleKey_of_inside hkey hinside, hplan]
  exact if_pos hnil

/-- **A key press fails over a sum of widths** exactly if its key indents and the widths of
the lines, or the columns that ends of selections move to, are no words. -/
theorem handleKey_eq_overflow_iff (s : Session) (key : Text) (ss : List Selection) :
    (s.handleKey key ss).2 = .error .overflow
      ↔ ∃ direction, KeyBinding.ofName? key = some (.edit (.indent direction)) ∧ s.Inside ss
        ∧ ¬ s.source.SumsFit s.config.indentSettings direction (Selection.normalize ss) := by
  -- for a command, the right side says that it plans nothing
  have hnone : ∀ {command : EditCommand}, KeyBinding.ofName? key = some (.edit command) →
      s.Inside ss →
      ((∃ direction, KeyBinding.ofName? key = some (.edit (.indent direction)) ∧ s.Inside ss
          ∧ ¬ s.source.SumsFit s.config.indentSettings direction (Selection.normalize ss))
        ↔ command.plan s.document.source (Selection.normalize ss) s.config.indentSettings
          = none) := by
    intro command hkey hinside
    rw [EditCommand.plan_eq_none_iff s.document.lineText_eq_line, hkey]
    simp only [Option.some.injEq, KeyBinding.edit.injEq, hinside, true_and]
    rfl
  have hstep := keyStep_handleKey s key ss
  generalize s.handleKey key ss = outcome at hstep
  cases hstep with
  | unknown hkey => simp [hkey]
  | compiled hkey => simp [hkey]
  | outside command p hkey hp =>
    have hout : ¬ s.Inside ss := fun hinside => not_isFirstOutside hinside p hp
    simp [hout]
  | passed command hkey hinside hplan => simp [hnone hkey hinside, hplan]
  | overflowed command hkey hinside hplan => simp [hnone hkey hinside, hplan]
  | edited command plan text hkey hinside hplan => simp [hnone hkey hinside, hplan]

/-- **A key press fails over an unknown key, a position outside the buffer or, for a
key that indents, a sum of widths that is no word,
and over nothing else**; failing or passing leaves the session as it was, and
an edit changes the buffer as planned, and with it at most the import
boundary. -/
theorem handleKey_outcome (s : Session) (key : Text) (ss : List Selection) :
    (∀ name, (s.handleKey key ss).2 = .error (.unknownKey name)
        ↔ KeyBinding.ofName? key = none ∧ name = key)
    ∧ (∀ p, (s.handleKey key ss).2 = .error (.outOfRange p)
        ↔ (∃ command, KeyBinding.ofName? key = some (.edit command)) ∧ s.IsFirstOutside ss p)
    ∧ ((s.handleKey key ss).2 = .error .overflow
        ↔ ∃ direction, KeyBinding.ofName? key = some (.edit (.indent direction)) ∧ s.Inside ss
          ∧ ¬ s.source.SumsFit s.config.indentSettings direction (Selection.normalize ss))
    ∧ (∀ e, (s.handleKey key ss).2 ≠ .error (.edit e))
    ∧ ((∃ e, (s.handleKey key ss).2 = .error e) ∨ (s.handleKey key ss).2 = .ok .pass
        → (s.handleKey key ss).1 = s)
    ∧ (∀ plan, (s.handleKey key ss).2 = .ok (.edited plan)
        → plan.apply s.source = .ok (s.handleKey key ss).1.source
          ∧ (s.handleKey key ss).1.theme = s.theme
          ∧ (s.handleKey key ss).1.config = s.config
          ∧ (s.handleKey key ss).1.queue = s.queue) := by
  have hoverflow := handleKey_eq_overflow_iff s key ss
  have hstep := keyStep_handleKey s key ss
  generalize s.handleKey key ss = outcome at hstep hoverflow
  rw [and_iff_right hoverflow]
  cases hstep with
  | unknown hkey => simp [hkey, eq_comm]
  | compiled hkey => simp [hkey]
  | outside command p hkey hp =>
    have hfirst : ∀ q, s.IsFirstOutside ss q ↔ p = q := fun q => by
      rw [← firstOutside?_eq_some_iff] at hp ⊢
      rw [hp, Option.some.injEq]
    simp [hkey, hfirst]
  | passed command hkey hinside | overflowed command hkey hinside =>
    simp [hkey, not_isFirstOutside hinside]
  | edited command plan text hkey hinside hplan happly =>
    refine ⟨by simp [hkey], by simp [hkey, not_isFirstOutside hinside], by simp, by simp,
      fun plan' hplan' => ?_⟩
    obtain rfl : plan = plan' := by simpa using hplan'
    refine ⟨?_, ?_⟩
    · rw [source_edited happly]
      exact happly
    · dsimp only
      split_ifs
      · exact ⟨rfl, rfl, rfl⟩
      · exact ⟨rfl, rfl, rfl⟩

end Session

end EditorCore
