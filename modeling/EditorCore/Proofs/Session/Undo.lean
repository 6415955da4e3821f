import EditorCore.Proofs.Edit.Undo
import EditorCore.Proofs.Session.Range

/-!
# Undoing an opening key

A host that types an opening character and then presses backspace hands the
planned selections straight back, and should be where it was: with the same
buffer, and with the cursors in normal form that it had before
(`Session.handleKey_backspace_openPair`).
-/

namespace EditorCore

/-- The opening keys insert the pairs that backspace takes as one. -/
theorem KeyBinding.mem_emptyPairs_of_ofName? {name : Text} {opening closing : Char}
    (h : ofName? name = some (.edit (.openPair opening closing))) :
    [opening, closing] ∈ emptyPairs := by
  have hmem := mem_bindings_of_ofName? h
  simp only [bindings, List.mem_cons, List.not_mem_nil, or_false, Prod.mk.injEq, edit.injEq,
    EditCommand.openPair.injEq, reduceCtorEq, and_false, or_self] at hmem
  rcases hmem with ⟨-, rfl, rfl⟩ | ⟨-, rfl, rfl⟩ | ⟨-, rfl, rfl⟩ | ⟨-, rfl, rfl⟩ | ⟨-, rfl, rfl⟩ |
    ⟨-, rfl, rfl⟩ <;> decide

namespace Session

variable {s : Session} {key back : Text} {ss : List Selection} {plan : EditPlan}
  {opening closing : Char}

/-- **An opening key that edits at cursors inserts a pair at each of them.** -/
theorem pairsInserted_of_handleKey
    (hkey : KeyBinding.ofName? key = some (.edit (.openPair opening closing)))
    (hcursors : ∀ t ∈ ss, t.isEmpty) (h : (s.handleKey key ss).2 = .ok (.edited plan))
    (hedits : plan.edits ≠ []) (hwords : (s.handleKey key ss).1.source.Addressable) :
    ∃ ps : List Position, ps ≠ [] ∧ Selection.normalize ss = ps.map .cursor
      ∧ s.source.PairsInserted (s.handleKey key ss).1.source opening closing ps
      ∧ plan.selections = (insideCursors [] ps).map .cursor := by
  have hpair := KeyBinding.mem_emptyPairs_of_ofName? hkey
  have hgaps := Selection.pairwise_normalize ss
  obtain ⟨ps, hps⟩ := Selection.exists_eq_map_cursor (Selection.isEmpty_normalize hcursors)
  rw [hps, Selection.pairwise_map_cursor] at hgaps
  have hstep := keyStep_handleKey s key ss
  generalize s.handleKey key ss = outcome at hstep h hwords ⊢
  cases hstep with
  | edited command plan' text hcommand hinside hplan happly =>
    obtain rfl : plan' = plan := KeyResponse.edited.inj (Except.ok.inj h)
    obtain rfl : command = .openPair opening closing :=
      KeyBinding.edit.inj (Option.some.inj (hcommand.symm.trans hkey))
    obtain ⟨rfl, hpairable⟩ :=
      eq_insertPairs_of_openPair (Selection.isEmpty_normalize hcursors) (Option.some.inj hplan)
        hedits
    have hsource := source_edited happly
    dsimp only at hwords hsource ⊢
    rw [hsource] at hwords ⊢
    have hends := reach_normalize hinside
    have hreach : ∀ p ∈ ps, s.source.Reach [] p := by
      rw [hps, List.forall_mem_map] at hends
      exact fun p hp => (hends p hp).2
    rw [hps, List.forall_mem_map] at hpairable
    rw [hps, insertPairs_map_cursor hpair hgaps] at hedits happly ⊢
    refine ⟨ps, fun hnil => hedits (hnil ▸ rfl), rfl, ?_, rfl⟩
    exact pairsInserted_of_apply hpair hgaps hreach
      (fun p hp => atBoundary_of_pairable s.document.lineText_eq_line (hreach p hp)
        (hpairable p hp)) happly hwords.width_line_lt
  | _ => cases h

/-- **Backspace undoes an opening key.** Where an opening key inserts pairs at
cursors, and does not only step over a character, backspace on the planned
selections takes them out again: it restores the buffer and plans the cursors
there were, in normal form. The new lines must not outgrow a word, as their
columns would. -/
theorem handleKey_backspace_openPair
    (hkey : KeyBinding.ofName? key = some (.edit (.openPair opening closing)))
    (hback : KeyBinding.ofName? back = some (.edit .backspace))
    (hcursors : ∀ t ∈ ss, t.isEmpty) (h : (s.handleKey key ss).2 = .ok (.edited plan))
    (hedits : plan.edits ≠ []) (hwords : (s.handleKey key ss).1.source.Addressable) :
    ∃ removal, ((s.handleKey key ss).1.handleKey back plan.selections).2 = .ok (.edited removal)
      ∧ ((s.handleKey key ss).1.handleKey back plan.selections).1.source = s.source
      ∧ removal.selections = Selection.normalize ss := by
  obtain ⟨ps, hne, hnormal, hinserted, hselections⟩ :=
    pairsInserted_of_handleKey hkey hcursors h hedits hwords
  generalize (s.handleKey key ss).1 = s' at hwords hinserted ⊢
  have hsource : ∀ line, s'.document.source.lineText line = s'.source.line line.toNat :=
    s'.document.lineText_eq_line
  have hinside : s'.Inside plan.selections := by
    rw [inside_iff_reach hwords, hselections]
    intro t ht
    obtain ⟨q, hq, rfl⟩ := List.mem_map.1 ht
    exact ⟨hinserted.reach_insideCursors hq, hinserted.reach_insideCursors hq⟩
  have hremoval : backspace s'.document.source (Selection.normalize plan.selections)
      = .edit ⟨(insideCursors [] ps).map removePair, Selection.normalize ss⟩ := by
    rw [hselections, Selection.normalize_of_pairwise hinserted.pairwise_insideCursors,
      hinserted.backspace_eq hsource hne, hnormal]
  obtain ⟨hanswer, happly, -⟩ := handleKey_edit hback hinside (congrArg some hremoval)
  exact ⟨_, hanswer, Except.ok.inj (happly.symm.trans (hinserted.apply_removePair hsource _)), rfl⟩

/-- A pair after a character of two columns, and before a carriage return. -/
theorem handleKey_backspace_openPair_wide :
    let typed := ((new {}).setSource ['😀', '\r']).handleKey ['('] [.cursor ⟨0, 2⟩]
    typed.2 = .ok (.edited ⟨[.insert ⟨0, 2⟩ ['(', ')']], [.cursor ⟨0, 3⟩]⟩)
    ∧ ∃ removal, (typed.1.handleKey "Backspace".toList [.cursor ⟨0, 3⟩]).2 = .ok (.edited removal)
        ∧ (typed.1.handleKey "Backspace".toList [.cursor ⟨0, 3⟩]).1.source = ['😀', '\r']
        ∧ removal.selections = Selection.normalize [.cursor ⟨0, 2⟩] := by
  have htyped : (((new {}).setSource ['😀', '\r']).handleKey ['('] [.cursor ⟨0, 2⟩]).2
      = .ok (.edited ⟨[.insert ⟨0, 2⟩ ['(', ')']], [.cursor ⟨0, 3⟩]⟩) := by
    decide +kernel
  have hkey : KeyBinding.ofName? ['('] = some (.edit (.openPair '(' ')')) := by decide
  refine ⟨htyped, handleKey_backspace_openPair hkey ?_ ?_ htyped ?_ ?_⟩
  all_goals decide +kernel

end Session

end EditorCore
