import EditorCore.Config.Format
import EditorCore.Proofs.Edit.Room
import EditorCore.Proofs.Session.Outdent

/-!
# Keys and checked arithmetic

A key computes with columns, which are words. For pairs that is no concern: in a buffer
of less than 2²⁹ bytes a key for opening, closing or removing them computes what it does
with checked arithmetic, whatever there is selected (`Session.handleKey_pairs_checked`).

A key for indenting depends on the settings as well, and these can be any words. Its sums
are checked. Where all of them are words, nothing overflows, and indenting makes no line
narrower; so it is in a short buffer with settings of moderate size
(`Session.handleKey_indent_checked`). With others the sum of the width and the step can be no
word even there, and the key that indents fails (`Session.handleKey_indent_overflows`).
-/

namespace EditorCore

/-- What a key answers that plans an outcome. -/
def KeyOutcome.response : KeyOutcome → KeyResponse
  | .pass => .pass
  | .edit plan => .edited plan

namespace Session

variable {s : Session} {key : Text} {ss : List Selection} {command : EditCommand}
  {direction : IndentDirection}

/-- **What a command plans for selections**, as a key has it do, unless a word overflows. -/
def checkedPlan (s : Session) (command : EditCommand) (ss : List Selection) : Option KeyOutcome :=
  Checked.plan command s.document.source (Selection.normalize ss) s.config.indentSettings

/-- **A key answers what its command plans**, given selections within the buffer. -/
theorem handleKey_response {outcome : KeyOutcome}
    (hkey : KeyBinding.ofName? key = some (.edit command)) (hinside : s.Inside ss)
    (hplan : command.plan s.document.source (Selection.normalize ss) s.config.indentSettings
      = some outcome) : (s.handleKey key ss).2 = .ok outcome.response := by
  cases outcome with
  | pass =>
    rw [handleKey_of_inside hkey hinside, hplan]
    rfl
  | edit plan => exact (handleKey_edit hkey hinside hplan).1

/-- **A key fails where its command plans nothing**, and leaves the session as it is. -/
theorem handleKey_overflow (hkey : KeyBinding.ofName? key = some (.edit command))
    (hinside : s.Inside ss)
    (hplan : command.plan s.document.source (Selection.normalize ss) s.config.indentSettings
      = none) : s.handleKey key ss = (s, .error .overflow) := by
  rw [handleKey_of_inside hkey hinside, hplan]

/-! ## Pairs -/

/-- **Keys for pairs compute without overflow.** In a buffer of less than 2²⁹ bytes a key
that opens, closes or removes pairs answers what its command plans with checked arithmetic,
for any selections within the buffer. So no column outgrows a word, and what backspace
subtracts for the pairs removed before is never more than the column a pair starts in. -/
theorem handleKey_pairs_checked (hkey : KeyBinding.ofName? key = some (.edit command))
    (hpairs : ∀ direction, command ≠ .indent direction) (hinside : s.Inside ss)
    (hsize : s.source.byteSize < 2 ^ 29) :
    ∃ outcome, s.checkedPlan command ss = some outcome
      ∧ (s.handleKey key ss).2 = .ok outcome.response := by
  have hgaps := Selection.pairwise_normalize ss
  have hreach := reach_normalize hinside
  cases command with
  | openPair opening closing =>
    exact ⟨_, Checked.openPair_eq hsize hgaps hreach opening closing,
      handleKey_response hkey hinside rfl⟩
  | closePair closing =>
    exact ⟨_, Checked.closePair_eq hsize hreach closing, handleKey_response hkey hinside rfl⟩
  | indent direction => exact absurd rfl (hpairs direction)
  | backspace =>
    exact ⟨_, Checked.backspace_eq s.document.lineText_eq_line hsize hreach,
      handleKey_response hkey hinside rfl⟩

/-- Three quotes with a cursor on each side of the middle one, and a pair of parentheses
after them. The second cursor folds into the first, and the last one moves to the left by
the pair that is removed. -/
theorem handleKey_pairs_checked_backspace :
    let s := (new {}).setSource ['"', '"', '"', '(', ')']
    let ss : List Selection := [.cursor ⟨0, 4⟩, .cursor ⟨0, 1⟩, .cursor ⟨0, 2⟩]
    let plan : EditPlan :=
      ⟨[.delete ⟨0, 0⟩ ⟨0, 2⟩, .delete ⟨0, 3⟩ ⟨0, 5⟩], [.cursor ⟨0, 0⟩, .cursor ⟨0, 1⟩]⟩
    s.checkedPlan .backspace ss = some (.edit plan)
      ∧ (s.handleKey "Backspace".toList ss).2 = .ok (.edited plan) := by
  intro s ss plan
  have hplan : s.checkedPlan .backspace ss = some (.edit plan) := by cbv
  have hkey : KeyBinding.ofName? "Backspace".toList = some (.edit .backspace) := by decide
  have hinside : ∀ t ∈ ss, s.document.contains t.anchor ∧ s.document.contains t.head := by
    decide +kernel
  obtain ⟨outcome, hchecked, hanswer⟩ :=
    handleKey_pairs_checked hkey (fun _ => EditCommand.noConfusion) hinside (by decide +kernel)
  obtain rfl := Option.some.inj (hplan.symm.trans hchecked)
  exact ⟨hplan, hanswer⟩

/-! ## Indentation -/

/-- **Keys for indenting compute without overflow exactly if all sums are words.** Then
they answer what their command plans with checked arithmetic, and else they fail. The sums are
words in a buffer of
less than 2²⁹ bytes, if the tab size and the step are of moderate size. And where they are, a
key that indents makes no line narrower that is touched. -/
theorem handleKey_indent_checked
    (hkey : KeyBinding.ofName? key = some (.edit (.indent direction))) (hinside : s.Inside ss) :
    (s.checkedPlan (.indent direction) ss ≠ none
        ↔ s.source.SumsFit s.config.indentSettings direction (Selection.normalize ss))
    ∧ (∀ outcome, s.checkedPlan (.indent direction) ss = some outcome →
        (s.handleKey key ss).2 = .ok outcome.response)
    ∧ (s.checkedPlan (.indent direction) ss = none → s.handleKey key ss = (s, .error .overflow))
    ∧ (s.source.byteSize < 2 ^ 29 →
        (s.config.indentSettings.tabStop + 1) * 2 ^ 29
          + s.config.indentSettings.indentUnit.toNat ≤ 2 ^ 32 →
        s.source.SumsFit s.config.indentSettings direction (Selection.normalize ss))
    ∧ (s.source.SumsFit s.config.indentSettings direction (Selection.normalize ss) →
        direction = .more → ∀ i, Selection.Touched (Selection.normalize ss) i →
          (s.source.line i).indentation.blankWidth s.config.indentSettings.tabStop
            ≤ ((s.handleKey key ss).1.source.line i).indentation.blankWidth
              s.config.indentSettings.tabStop) := by
  have hcomputes : Checked.Computes (s.checkedPlan (.indent direction) ss)
      (s.source.SumsFit s.config.indentSettings direction (Selection.normalize ss)) _ :=
    Checked.computes_indent s.document.lineText_eq_line _ _ direction
  refine ⟨hcomputes.eq_none_iff.not_left, fun outcome => handleKey_response hkey hinside,
    handleKey_overflow hkey hinside, fun hsize hsettings => ?_, fun hsums hmore i hi => ?_⟩
  · exact Text.sumsFit_of_byteSize_lt hsize hsettings (reach_normalize hinside) direction
  · obtain ⟨plan, move, -, hindents⟩ := exists_indents hkey hinside hsums
    rw [(hindents.indented i hi).blankWidth_eq, hmore]
    exact Nat.le_add_right _ _

/-- A tab and a space become three tabs of two columns, and the cursor in between goes to
the end of them. -/
theorem handleKey_indent_checked_tabs :
    let s := (new { editor := { indentWithTabs := true, indentUnit := 3 } }).setSource
      ['\t', ' ', 'x']
    let plan : EditPlan := ⟨[⟨⟨0, 0⟩, ⟨0, 2⟩, ['\t', '\t', '\t']⟩], [.cursor ⟨0, 3⟩]⟩
    s.checkedPlan (.indent .more) [.cursor ⟨0, 1⟩] = some (.edit plan)
      ∧ (s.handleKey "Tab".toList [.cursor ⟨0, 1⟩]).2 = .ok (.edited plan)
      ∧ (s.source.line 0).indentation.blankWidth 2
        ≤ ((s.handleKey "Tab".toList [.cursor ⟨0, 1⟩]).1.source.line 0).indentation.blankWidth 2 := by
  intro s plan
  have hplan : s.checkedPlan (.indent .more) [.cursor ⟨0, 1⟩] = some (.edit plan) := by cbv
  have hkey : KeyBinding.ofName? "Tab".toList = some (.edit (.indent .more)) := by decide
  have hinside : ∀ t ∈ [Selection.cursor ⟨0, 1⟩],
      s.document.contains t.anchor ∧ s.document.contains t.head := by decide +kernel
  have htouched : Selection.Touched (Selection.normalize [.cursor ⟨0, 1⟩]) 0 := by
    rw [Selection.normalize_of_pairwise (List.pairwise_singleton _ _)]
    decide
  obtain ⟨-, hanswer, -, hsums, hwider⟩ := handleKey_indent_checked hkey hinside
  exact ⟨hplan, hanswer _ hplan,
    hwider (hsums (by decide +kernel) (by decide)) rfl 0 htouched⟩

/-- **A tab size and a step that are the largest word** make the sum of a width of one column
and the step one more than that. Their configuration is read without a warning, and the key
that indents fails in a buffer of two characters. -/
theorem handleKey_indent_overflows :
    let read := Config.ofContents none
      "[editor]\ntab_size = 4294967295\nindent_unit = 4294967295\nindent_with_tabs = true\n".toList
    let s := (new read.1).setSource [' ', 'x']
    let tab := s.handleKey "Tab".toList [.cursor ⟨0, 0⟩]
    read.2 = [] ∧ s.source.byteSize < 2 ^ 29
      ∧ s.document.contains ⟨0, 0⟩
      ∧ (s.source.line 0).indentation.blankWidth s.config.indentSettings.tabStop
        + s.config.indentSettings.indentUnit.toNat = 2 ^ 32
      ∧ s.checkedPlan (.indent .more) [.cursor ⟨0, 0⟩] = none
      ∧ tab.2 = .error .overflow
      ∧ tab.1.source = [' ', 'x'] := by
  have hread : Config.ofContents none
      "[editor]\ntab_size = 4294967295\nindent_unit = 4294967295\nindent_with_tabs = true\n".toList
      = ({ editor := { tabSize := 4294967295, indentUnit := 4294967295, indentWithTabs := true } },
        []) := by decide +kernel
  rw [hread]
  intro s tab
  refine ⟨rfl, ?_, ?_, ?_, ?_, ?_, ?_⟩ <;> decide +kernel

end Session

end EditorCore
