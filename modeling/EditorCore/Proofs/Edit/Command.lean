import EditorCore.Edit.Command
import EditorCore.Proofs.Edit.Indent
import EditorCore.Proofs.Edit.Pairs

/-!
# What commands plan

What is known of every command: the edits it plans for selections in normal
form are in ascending order (`EditCommand.ascending_plan`), so they can
always be made; and for selections within the text, the planned ones track
those edits (`EditCommand.tracks_plan`). The second asks of the characters
that a command inserts or steps over that they be ordinary ones, as those of
the keys are (`KeyBinding.isPlain_of_ofName?`). There is no plan at all where the
widths of lines to indent add up to no word, and only there
(`EditCommand.plan_eq_none_iff`).
-/

namespace EditorCore

open TextEdit

variable {source : TokenSource} {t : Text} {ss : List Selection} {plan : EditPlan}

/-! ## Edits in order -/

/-- **A command wraps** when it opens a pair and no selection is empty. -/
def EditCommand.Wraps (command : EditCommand) (ss : List Selection) : Prop :=
  ∃ opening closing, command = .openPair opening closing ∧ ∀ s ∈ ss, ¬ s.isEmpty

/-- **What a command plans for any selections is in ascending order**, unless it
wraps them. -/
theorem EditCommand.ascending_plan_or_wraps {command : EditCommand} {settings : IndentSettings}
    (hsource : ∀ line, source.lineText line = t.line line.toNat)
    (h : command.plan source ss settings = some (.edit plan)) :
    Ascending plan.edits ∧ ¬ command.Wraps ss
      ∨ command.Wraps ss ∧ ∃ opening closing, plan = surround ss opening closing := by
  have hclose : ∀ {closing : Char}, EditorCore.closePair source ss closing = .edit plan →
      Ascending plan.edits ∧ ∃ s ∈ ss, s.isEmpty := by
    intro closing h
    unfold EditorCore.closePair at h
    split_ifs at h with hover
    obtain ⟨s, hs⟩ := List.exists_mem_of_ne_nil ss hover.1
    rw [← KeyOutcome.edit.inj h]
    exact ⟨⟨fun _ he => absurd he List.not_mem_nil, .nil⟩, s, hs, (hover.2 s hs).1⟩
  have hempty : ∀ {opening closing : Char}, (∃ s ∈ ss, s.isEmpty) →
      ¬ (EditCommand.openPair opening closing).Wraps ss := by
    rintro _ _ ⟨s, hs, hempty⟩ ⟨-, -, -, hfull⟩
    exact hfull s hs hempty
  cases command with
  | openPair opening closing =>
    replace h := Option.some.inj h
    rw [EditorCore.openPair] at h
    split_ifs at h with hnil _ hpair hfull
    · exact .inl ((hclose h).imp_right hempty)
    · obtain ⟨s, hs⟩ := List.exists_mem_of_ne_nil ss hnil
      rw [← KeyOutcome.edit.inj h]
      exact .inl ⟨ascending_insertPairs (fun s hs => (hpair s hs).1) opening closing,
        hempty ⟨s, hs, (hpair s hs).1⟩⟩
    · exact .inr ⟨⟨opening, closing, rfl, hfull⟩, opening, closing, (KeyOutcome.edit.inj h).symm⟩
    · exact .inl ((hclose h).imp_right hempty)
  | closePair closing => exact .inl ⟨(hclose (Option.some.inj h)).1, nofun⟩
  | indent direction =>
    obtain ⟨-, hplan⟩ := (Checked.computes_indent hsource ss settings direction _).1 h
    rw [← KeyOutcome.edit.inj hplan]
    exact .inl ⟨ascending_indentPlan t settings direction ss, nofun⟩
  | backspace =>
    replace h := Option.some.inj h
    rw [EditorCore.backspace] at h
    split_ifs at h with hpair
    rw [← KeyOutcome.edit.inj h]
    refine .inl ⟨ascending_keptPairs fun p hp => ?_, nofun⟩
    obtain ⟨s, hs, rfl⟩ := List.mem_map.1 hp
    exact start_le_stop_removePair (hpair.2 s (Selection.mem_sortByStart.1 hs)).2

/-- **What a command plans for selections in normal form is in ascending
order.** -/
theorem EditCommand.ascending_plan {command : EditCommand} {source : TokenSource}
    {ss : List Selection} {settings : IndentSettings} {plan : EditPlan}
    (hsource : ∀ line, source.lineText line = t.line line.toNat)
    (hss : ss.Pairwise fun s t => s.stop.rank < t.start.rank)
    (h : command.plan source ss settings = some (.edit plan)) : Ascending plan.edits := by
  rcases ascending_plan_or_wraps hsource h with ⟨hascending, -⟩ | ⟨-, opening, closing, rfl⟩
  · exact hascending
  · exact ascending_surround (hss.imp Nat.le_of_lt) opening closing

/-! ## Selections that follow -/

/-- The characters of a command are ordinary ones: none ends a line, and
stepping over one takes a column. -/
def EditCommand.IsPlain : EditCommand → Prop
  | .openPair opening closing =>
    (∀ c ∈ [opening, closing], c ≠ '\n' ∧ c ≠ '\r') ∧ units closing = 1
  | .closePair closing => units closing = 1
  | .indent _ => True
  | .backspace => True

/-- **What a command plans for selections in normal form follows its
edits**, and only backspace brings a carriage return to the end of a line. -/
theorem EditCommand.tracks_plan {command : EditCommand} (hplain : command.IsPlain)
    (hsource : ∀ line, source.lineText line = t.line line.toNat)
    (hgaps : ss.Pairwise fun s t => s.stop.rank < t.start.rank)
    (hss : ∀ s ∈ ss, t.Reach [] s.anchor ∧ t.Reach [] s.head) {settings : IndentSettings}
    (h : command.plan source ss settings = some (.edit plan)) :
    plan.Tracks t ∧ (plan.KeepsEndings t ∨ command = .backspace ∧ plan.MarksExposed t) := by
  cases command with
  | openPair opening closing =>
    obtain ⟨hplain, hclosing⟩ := hplain
    replace h := Option.some.inj h
    rw [EditorCore.openPair] at h
    have hclose : EditorCore.closePair source ss closing = .edit plan →
        plan.Tracks t ∧ plan.KeepsEndings t := tracks_closePair hsource hclosing hss
    split_ifs at h with _ _ hpair
    · exact (hclose h).imp_right .inl
    · rw [← KeyOutcome.edit.inj h]
      exact (tracks_insertPairs hplain (fun s hs => (hpair s hs).1) hss).imp_right .inl
    · rw [← KeyOutcome.edit.inj h]
      exact (tracks_surround hplain (hgaps.imp Nat.le_of_lt) hss).imp_right .inl
    · exact (hclose h).imp_right .inl
  | closePair closing =>
    exact (tracks_closePair hsource hplain hss (Option.some.inj h)).imp_right .inl
  | indent direction =>
    obtain ⟨hsums, hplan⟩ := (Checked.computes_indent hsource ss settings direction _).1 h
    rw [← KeyOutcome.edit.inj hplan]
    exact (tracks_indentPlan hsums hss).imp_right .inl
  | backspace =>
    exact (tracks_backspace hsource hss (Option.some.inj h)).imp_right fun hmarks =>
      .inr ⟨rfl, hmarks⟩

/-! ## Commands that fail -/

/-- **A command plans nothing** exactly if it indents and a sum is no word. -/
theorem EditCommand.plan_eq_none_iff {command : EditCommand} {settings : IndentSettings}
    (hsource : ∀ line, source.lineText line = t.line line.toNat) :
    command.plan source ss settings = none
      ↔ ∃ direction, command = .indent direction ∧ ¬ t.SumsFit settings direction ss := by
  cases command with
  | indent direction =>
    refine (Checked.computes_indent hsource ss settings direction).eq_none_iff.trans ?_
    constructor
    · exact fun hsums => ⟨direction, rfl, hsums⟩
    · rintro ⟨other, hother, hsums⟩
      exact EditCommand.indent.inj hother ▸ hsums
  | openPair opening closing | closePair closing | backspace =>
    exact iff_of_false (Option.some_ne_none _) nofun

/-! ## The keys -/

instance : DecidablePred EditCommand.IsPlain
  | .openPair opening closing =>
    have : Decidable (∀ c ∈ [opening, closing], c ≠ '\n' ∧ c ≠ '\r') :=
      List.decidableBAll _ _
    inferInstanceAs (Decidable (_ ∧ units closing = 1))
  | .closePair closing => inferInstanceAs (Decidable (units closing = 1))
  | .indent _ => inferInstanceAs (Decidable True)
  | .backspace => inferInstanceAs (Decidable True)

/-- The edit command of a binding. -/
def KeyBinding.command? : KeyBinding → Option EditCommand
  | .edit command => some command
  | .compile => none

/-- What a key is bound to is in the table. -/
theorem KeyBinding.mem_bindings_of_ofName? {name : Text} {binding : KeyBinding}
    (h : KeyBinding.ofName? name = some binding) : (bareName name, binding) ∈ bindings := by
  obtain ⟨before, after, hsplit, -⟩ := List.lookup_eq_some_iff.1 h
  rw [hsplit]
  exact List.mem_append_right _ List.mem_cons_self

/-- **The keys type ordinary characters.** -/
theorem KeyBinding.isPlain_of_ofName? {name : Text} {command : EditCommand}
    (h : KeyBinding.ofName? name = some (.edit command)) : command.IsPlain := by
  have hall : ∀ c ∈ bindings.filterMap (·.2.command?), c.IsPlain := by decide
  exact hall command (List.mem_filterMap.2 ⟨_, mem_bindings_of_ofName? h, rfl⟩)

end EditorCore
