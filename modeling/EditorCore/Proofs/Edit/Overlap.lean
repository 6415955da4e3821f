import EditorCore.Proofs.Document.Tiling
import EditorCore.Proofs.Edit.Command
import EditorCore.Proofs.Edit.Splice

/-!
# Which plans overlap

Commands are made for selections in normal form, but they plan for any: selections
out of order, repeated, overlapping, or outside the buffer. Each command sorts what
it is given, and each plans its edits one after the other, so for any selections
whatever its edits can be made – with one exception.

Wrapping puts two insertions around every selection. The second stands where the
selection stops, and a selection that starts before that would have its first
insertion there already. So wrapping overlaps exactly where a selection starts
before the one before it has stopped, both taken as bytes of the buffer
(`Selection.Clears`), and the refusal names the first such start
(`EditCommand.apply_plan_iff`). Selections that share a start come in the order
they were given in.
-/

namespace EditorCore

open TextEdit

variable {t : Text} {ss : List Selection} {plan : EditPlan} {opening closing : Char}

namespace Selection

/-- **A selection clears the one before it**: it starts no earlier than that one
stops, in bytes of a text. -/
def Clears (t : Text) (r s : Selection) : Prop := t.offset r.stop ≤ t.offset s.start

instance (t : Text) (r s : Selection) : Decidable (Clears t r s) :=
  inferInstanceAs (Decidable (_ ≤ _))

/-- The edit that takes all that is selected. -/
def cover (s : Selection) : TextEdit := ⟨s.start, s.stop, []⟩

theorem stopByte_cover (t : Text) (s : Selection) : s.cover.stopByte t = t.offset s.stop :=
  Nat.max_eq_right (Text.offset_mono s.start_le_stop)

/-- Taking selections out one after the other asks that each clear the one before
it. -/
theorem follows_cover {r s : Selection} : Follows t r.cover s.cover ↔ Clears t r s := by
  rw [Follows, stopByte_cover]
  rfl

/-- A chain of edits that each take out a selection. -/
theorem isChain_map_cover : (ss.map cover).IsChain (Follows t) ↔ ss.IsChain (Clears t) := by
  rw [List.isChain_map]
  simp only [follows_cover]

end Selection

namespace EditPlan

/-- **Wrapping is checked as taking the selections out would be.** The opening
insertion is checked at the start and the closing one leaves the check at the
stop. -/
theorem overlap?_wrapEdits (stop : Nat) (ss : List Selection) :
    overlap? t stop (ss.flatMap (wrapEdits opening closing))
      = overlap? t stop (ss.map Selection.cover) := by
  induction ss generalizing stop with
  | nil => rfl
  | cons s ss ih =>
    have hstart : (insert s.start [opening]).stopByte t = t.offset s.start := Nat.max_self _
    have hstop : (insert s.stop [closing]).stopByte t = t.offset s.stop := Nat.max_self _
    have hle : ¬ t.offset s.stop < t.offset s.start :=
      Nat.not_lt.2 (Text.offset_mono s.start_le_stop)
    rw [List.flatMap_cons, wrapEdits, List.cons_append, List.cons_append, List.nil_append,
      List.map_cons, overlap?_cons, overlap?_cons, overlap?_cons, hstart, hstop,
      Selection.stopByte_cover, ih]
    exact if_congr Iff.rfl rfl (if_neg hle)

/-- What has been wrapped is spliced unless two selections overlap. -/
theorem apply_surround (ss : List Selection) (opening closing : Char) (t : Text) :
    (surround ss opening closing).apply t
      = match overlap? t 0 ((Selection.sortByStart ss).map Selection.cover) with
        | some p => .error (.overlapping p)
        | none => .ok (t.spliced 0 (surround ss opening closing).edits) := by
  have hwraps : overlap? t 0 ((Selection.sortByStart ss).flatMap (wrapEdits opening closing))
      = overlap? t 0 ((Selection.sortByStart ss).map Selection.cover) := overlap?_wrapEdits 0 _
  rw [apply_eq, ← hwraps]
  rfl

/-- **Wrapping is made exactly when every selection clears the one before it**, in
the order of their starts. -/
theorem apply_surround_eq_ok_iff {u : Text} :
    (surround ss opening closing).apply t = .ok u
      ↔ (Selection.sortByStart ss).IsChain (Selection.Clears t)
        ∧ u = t.spliced 0 (surround ss opening closing).edits := by
  rw [apply_surround, ← Selection.isChain_map_cover, ← overlap?_zero_eq_none_iff]
  cases overlap? t 0 ((Selection.sortByStart ss).map Selection.cover) with
  | some p => exact ⟨nofun, fun h => absurd h.1 nofun⟩
  | none => exact ⟨fun h => ⟨rfl, (Except.ok.inj h).symm⟩, fun h => congrArg Except.ok h.2.symm⟩

/-- **Wrapping is refused at the first selection that does not clear the one before
it.** -/
theorem apply_surround_eq_error_iff {p : Position} :
    (surround ss opening closing).apply t = .error (.overlapping p)
      ↔ ∃ before r s after, Selection.sortByStart ss = before ++ r :: s :: after
        ∧ (before ++ [r]).IsChain (Selection.Clears t) ∧ ¬ Selection.Clears t r s
        ∧ s.start = p := by
  have hcheck : (surround ss opening closing).apply t = .error (.overlapping p)
      ↔ overlap? t 0 ((Selection.sortByStart ss).map Selection.cover) = some p := by
    rw [apply_surround]
    cases overlap? t 0 ((Selection.sortByStart ss).map Selection.cover) <;> simp
  rw [hcheck, overlap?_zero_eq_some_iff]
  constructor
  · rintro ⟨before, e, f, after, hsplit, hchain, hnot, hp⟩
    obtain ⟨front, back, hfront, rfl, hback⟩ := List.map_eq_append_iff.1 hsplit
    obtain ⟨r, rest, rfl, rfl, hrest⟩ := List.map_eq_cons_iff.1 hback
    obtain ⟨s, back, rfl, rfl, rfl⟩ := List.map_eq_cons_iff.1 hrest
    rw [← List.map_singleton, ← List.map_append, Selection.isChain_map_cover] at hchain
    exact ⟨front, r, s, back, hfront, hchain, Selection.follows_cover.not.1 hnot, hp⟩
  · rintro ⟨before, r, s, after, hsplit, hchain, hnot, hp⟩
    rw [hsplit]
    refine ⟨before.map Selection.cover, r.cover, s.cover, after.map Selection.cover,
      by simp, ?_, Selection.follows_cover.not.2 hnot, hp⟩
    rwa [← List.map_singleton, ← List.map_append, Selection.isChain_map_cover]

end EditPlan

/-- **Commands plan safely for any selections.** Only indentation can fail to plan, over a sum
of widths that is no word. What a command plans can be made,
however the selections lie, and the buffer is then the splice of its edits – unless
it wraps them. Wrapping can be made exactly when, in the order of their starts,
every selection clears the one before it, and otherwise the refusal names where the
first one starts that does not. -/
theorem EditCommand.apply_plan_iff (d : Document) (command : EditCommand) (ss : List Selection)
    (settings : IndentSettings) :
    (command.plan d.source ss settings = none ↔
      ∃ direction, command = .indent direction ∧ ¬ d.text.SumsFit settings direction ss)
    ∧ ∀ plan, command.plan d.source ss settings = some (.edit plan) →
      (¬ command.Wraps ss → plan.apply d.text = .ok (d.text.spliced 0 plan.edits))
      ∧ (command.Wraps ss →
          (∀ u, plan.apply d.text = .ok u ↔
            (Selection.sortByStart ss).IsChain (Selection.Clears d.text)
              ∧ u = d.text.spliced 0 plan.edits)
          ∧ ∀ p, plan.apply d.text = .error (.overlapping p) ↔
            ∃ before r s after, Selection.sortByStart ss = before ++ r :: s :: after
              ∧ (before ++ [r]).IsChain (Selection.Clears d.text)
              ∧ ¬ Selection.Clears d.text r s ∧ s.start = p) := by
  refine ⟨plan_eq_none_iff d.lineText_eq_line, fun plan h => ?_⟩
  rcases ascending_plan_or_wraps d.lineText_eq_line h with
    ⟨hascending, hnot⟩ | ⟨hwraps, opening, closing, rfl⟩
  · refine ⟨fun _ => ?_, fun hwraps => absurd hwraps hnot⟩
    rw [EditPlan.apply_eq, EditPlan.overlap?_eq_none hascending fun _ _ => Nat.zero_le _]
  · exact ⟨fun hnot => absurd hwraps hnot, fun _ =>
      ⟨fun _ => EditPlan.apply_surround_eq_ok_iff, fun _ => EditPlan.apply_surround_eq_error_iff⟩⟩

/-- Cursors outside the buffer, one of them twice, get their pairs at the ends of
the line and of the buffer. Of three ranges, the second starts within the character
of two columns in which the first stops, which is no overlap in bytes; the third
starts there, too, but comes after the second. -/
theorem EditCommand.apply_plan_iff_outside :
    let d := Document.ofText ['a', '😀', 'b', '\n', 'c']
    let cursors : List Selection := [.cursor ⟨7, 9⟩, .cursor ⟨0, 9⟩, .cursor ⟨7, 9⟩]
    let ranges : List Selection := [⟨⟨0, 2⟩, ⟨1, 0⟩⟩, ⟨⟨0, 0⟩, ⟨0, 2⟩⟩, ⟨⟨0, 4⟩, ⟨0, 1⟩⟩]
    (∃ plan, (EditCommand.openPair '(' ')').plan d.source cursors {} = some (.edit plan)
      ∧ plan.apply d.text
        = .ok ['a', '😀', 'b', '(', ')', '\n', 'c', '(', ')', '(', ')'])
    ∧ ∃ plan, (EditCommand.openPair '(' ')').plan d.source ranges {} = some (.edit plan)
      ∧ plan.apply d.text = .error (.overlapping ⟨0, 2⟩) := by
  intro d cursors ranges
  have hcursors : (EditCommand.openPair '(' ')').plan d.source cursors {}
      = some (.edit
        ⟨[insert ⟨0, 9⟩ ['(', ')'], insert ⟨7, 9⟩ ['(', ')'], insert ⟨7, 9⟩ ['(', ')']],
          [.cursor ⟨0, 10⟩, .cursor ⟨7, 10⟩, .cursor ⟨7, 12⟩]⟩) := by cbv
  have hranges : (EditCommand.openPair '(' ')').plan d.source ranges {}
      = some (.edit
        ⟨[insert ⟨0, 0⟩ ['('], insert ⟨0, 2⟩ [')'], insert ⟨0, 1⟩ ['('],
            insert ⟨0, 4⟩ [')'], insert ⟨0, 2⟩ ['('], insert ⟨1, 0⟩ [')']],
          [⟨⟨0, 1⟩, ⟨0, 3⟩⟩, ⟨⟨0, 7⟩, ⟨0, 4⟩⟩, ⟨⟨0, 7⟩, ⟨1, 0⟩⟩]⟩) := by cbv
  have happly := (apply_plan_iff d (.openPair '(' ')') cursors {}).2 _ hcursors
  have hrefuse := (apply_plan_iff d (.openPair '(' ')') ranges {}).2 _ hranges
  refine ⟨⟨_, hcursors, (happly.1 ?_).trans (by decide +kernel)⟩,
    _, hranges, ((hrefuse.2 ⟨'(', ')', rfl, by decide⟩).2 ⟨0, 2⟩).2 ?_⟩
  · rintro ⟨-, -, -, hfull⟩
    exact hfull _ List.mem_cons_self rfl
  · have hsort : Selection.sortByStart ranges
        = [⟨⟨0, 0⟩, ⟨0, 2⟩⟩, ⟨⟨0, 4⟩, ⟨0, 1⟩⟩, ⟨⟨0, 2⟩, ⟨1, 0⟩⟩] := by cbv
    exact ⟨[⟨⟨0, 0⟩, ⟨0, 2⟩⟩], ⟨⟨0, 4⟩, ⟨0, 1⟩⟩, ⟨⟨0, 2⟩, ⟨1, 0⟩⟩, [], hsort, by decide +kernel,
      by decide +kernel, rfl⟩

end EditorCore
