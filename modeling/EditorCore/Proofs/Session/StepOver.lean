import EditorCore.Proofs.Session.Undo

/-!
# Typing on past an inserted pair

A writer who does not look types the closing character as well, and should end up
behind the pair rather than with a second one. The cursors that an opening key plans
stand each before the closing character it has inserted, so a closing key steps over
it at every cursor (`Text.PairsInserted.closePair_eq`).

A quote closes what it opens, and its key decides by the buffer as it now reads.
In or right after a literal a double quote steps over; elsewhere, and for the other
quote everywhere, the key asks for room for a pair, and there is none before a
quote. So all its ways lead to stepping over, whatever the new text has become part
of (`Text.PairsInserted.openPair_eq_closePair`).
-/

namespace EditorCore

/-! ## The keys -/

/-- **A key closes what another opens**: it is bound to typing the closing
character, or it is the key of the same quote. -/
def KeyBinding.Closes (name : Text) (opening closing : Char) : Prop :=
  ofName? name = some (.edit (.closePair closing))
    ∨ opening = closing ∧ ofName? name = some (.edit (.openPair opening closing))

/-- Whatever a key opens, some key closes. -/
theorem KeyBinding.exists_closes {name : Text} {opening closing : Char}
    (h : ofName? name = some (.edit (.openPair opening closing))) :
    ∃ close, Closes close opening closing := by
  have hpair := mem_emptyPairs_of_ofName? h
  simp only [emptyPairs, List.mem_cons, List.cons.injEq, and_true, List.not_mem_nil,
    or_false] at hpair
  rcases hpair with ⟨rfl, rfl⟩ | ⟨rfl, rfl⟩ | ⟨rfl, rfl⟩ | ⟨rfl, rfl⟩ | ⟨rfl, rfl⟩
  · exact ⟨[')'], .inl (by decide)⟩
  · exact ⟨['}'], .inl (by decide)⟩
  · exact ⟨[']'], .inl (by decide)⟩
  · exact ⟨name, .inr ⟨rfl, h⟩⟩
  · exact ⟨name, .inr ⟨rfl, h⟩⟩

/-- A quote leaves no room for a pair before it. -/
theorem not_isPairable_of_mem_emptyPairs {quote : Char} (h : [quote, quote] ∈ emptyPairs) :
    isPairable quote = false := by
  simp only [emptyPairs, List.mem_cons, List.cons.injEq, and_true, List.not_mem_nil,
    or_false] at h
  rcases h with ⟨rfl, h⟩ | ⟨rfl, h⟩ | ⟨rfl, h⟩ | ⟨rfl, -⟩ | ⟨rfl, -⟩
  all_goals first | exact absurd h (by decide) | decide

/-! ## The commands -/

/-- **A cursor one column to the right** of another. -/
def Selection.StepsRight (s t : Selection) : Prop :=
  ∃ p q, s = .cursor p ∧ t = .cursor q ∧ q.line = p.line
    ∧ q.column.toNat = p.column.toNat + 1

namespace Text.PairsInserted

variable {t u : Text} {ps : List Position} {opening closing : Char} {source : TokenSource}
  (h : t.PairsInserted u opening closing ps)
  (hsource : ∀ line, source.lineText line = u.line line.toNat)

include h

/-- The closing character of the pair comes right after each new cursor. -/
theorem charAfter_eq {q : Position} (hq : q ∈ insideCursors [] ps) :
    (u.line q.line.toNat).charAfter q.column.toNat = some closing := by
  obtain ⟨-, hopening, -⟩ := plain_of_mem_emptyPairs h.mem_emptyPairs
  obtain ⟨pre, post, hpost, hcolumn⟩ := h.hasPair hq
  have hwidth : width (pre ++ [opening]) = q.column.toNat := by
    rw [hcolumn, width_append, width_cons, hopening]
    rfl
  rw [hpost, ← hwidth, List.append_assoc, List.cons_append, List.append_cons,
    charAfter_width_append]
  rfl

/-- One column to the right of a new cursor is a column of words. -/
theorem toNat_column_add_one {q : Position} (hq : q ∈ insideCursors [] ps) :
    (q.column + 1).toNat = q.column.toNat + 1 := by
  obtain ⟨-, hopening, hclosing⟩ := plain_of_mem_emptyPairs h.mem_emptyPairs
  obtain ⟨pre, post, hpost, hcolumn⟩ := h.hasPair hq
  rw [(toNat_column_pair hpost hcolumn hopening hclosing (h.words _)).2, hcolumn, width_append,
    width_cons, width_cons, hopening, hclosing]
  rfl

include hsource

/-- **A closing key steps over the inserted characters**, at every cursor. -/
theorem closePair_eq (hne : ps ≠ []) :
    closePair source ((insideCursors [] ps).map .cursor) closing
      = .edit ⟨[], (insideCursors [] ps).map fun q => .cursor ⟨q.line, q.column + 1⟩⟩ := by
  obtain ⟨-, -, hclosing⟩ := plain_of_mem_emptyPairs h.mem_emptyPairs
  have hcursors : (insideCursors [] ps).map Selection.cursor ≠ [] := by
    obtain ⟨p, ps, rfl⟩ := List.exists_cons_of_ne_nil hne
    exact List.cons_ne_nil _ _
  have hbefore : ∀ s ∈ (insideCursors [] ps).map Selection.cursor,
      s.isEmpty ∧ source.charAfter s.head = some closing := by
    intro s hs
    obtain ⟨q, hq, rfl⟩ := List.mem_map.1 hs
    refine ⟨decide_eq_true rfl, ?_⟩
    rw [TokenSource.charAfter, hsource]
    exact h.charAfter_eq hq
  have hsort := Selection.sortByStart_of_pairwise (h.pairwise_insideCursors.imp
    fun {r s} hrs => (r.start_le_stop.trans_lt hrs).le)
  have hone : columnWidth closing = 1 := by
    rw [columnWidth, hclosing]
    rfl
  rw [closePair, if_pos ⟨hcursors, hbefore⟩, hsort, hone, List.map_map]
  rfl

/-- **A quote typed again is a closing one**, whether or not the cursors are in a
literal: there is no room for another pair. -/
theorem openPair_eq_closePair (hne : ps ≠ []) (hquote : opening = closing) :
    openPair source ((insideCursors [] ps).map .cursor) opening closing
      = closePair source ((insideCursors [] ps).map .cursor) closing := by
  obtain ⟨p, ps, rfl⟩ := List.exists_cons_of_ne_nil hne
  obtain ⟨q, qs, hqs⟩ : ∃ q qs, insideCursors [] (p :: ps) = q :: qs := ⟨_, _, rfl⟩
  have hmem : q ∈ insideCursors [] (p :: ps) := hqs ▸ List.mem_cons_self
  have hfirst : Selection.cursor q ∈ (insideCursors [] (p :: ps)).map Selection.cursor :=
    List.mem_map_of_mem hmem
  have hfull : ¬ source.pairable q := by
    rw [TokenSource.pairable, TokenSource.charAfter, hsource, h.charAfter_eq hmem, Option.all_some,
      not_isPairable_of_mem_emptyPairs (hquote ▸ h.mem_emptyPairs)]
    decide
  unfold openPair
  split_ifs with hnil _ hroom hselected
  · exact absurd hfirst (hnil ▸ List.not_mem_nil)
  · rfl
  · exact absurd (hroom _ hfirst).2 hfull
  · exact absurd (decide_eq_true rfl) (hselected _ hfirst)
  · rfl

end Text.PairsInserted

namespace Session

variable {s : Session} {key : Text} {ss : List Selection} {plan : EditPlan}
  {opening closing : Char}

/-- **A closing key steps over what an opening key inserted.** Where an opening key
inserts pairs at cursors, there is a key that closes them, and pressing any such key
on the planned selections edits nothing, leaves the session as it is, and moves each
cursor one column to the right. The new lines must not outgrow a word, as their
columns would. -/
theorem handleKey_closing_openPair
    (hkey : KeyBinding.ofName? key = some (.edit (.openPair opening closing)))
    (hcursors : ∀ t ∈ ss, t.isEmpty) (h : (s.handleKey key ss).2 = .ok (.edited plan))
    (hedits : plan.edits ≠ []) (hwords : (s.handleKey key ss).1.source.Addressable) :
    (∃ close, KeyBinding.Closes close opening closing)
    ∧ ∀ close, KeyBinding.Closes close opening closing →
      ∃ moved, (s.handleKey key ss).1.handleKey close plan.selections
          = ((s.handleKey key ss).1, .ok (.edited ⟨[], moved⟩))
        ∧ List.Forall₂ Selection.StepsRight plan.selections moved := by
  refine ⟨KeyBinding.exists_closes hkey, fun close hclose => ?_⟩
  obtain ⟨ps, hne, -, hinserted, hselections⟩ :=
    pairsInserted_of_handleKey hkey hcursors h hedits hwords
  generalize (s.handleKey key ss).1 = s' at hwords hinserted ⊢
  have hsource : ∀ line, s'.document.source.lineText line = s'.source.line line.toNat :=
    s'.document.lineText_eq_line
  have hinside : s'.Inside plan.selections := by
    rw [inside_iff_reach hwords, hselections]
    intro t ht
    obtain ⟨q, hq, rfl⟩ := List.mem_map.1 ht
    exact ⟨hinserted.reach_insideCursors hq, hinserted.reach_insideCursors hq⟩
  have hnormal : Selection.normalize plan.selections = (insideCursors [] ps).map .cursor := by
    rw [hselections, Selection.normalize_of_pairwise hinserted.pairwise_insideCursors]
  have hstep := hinserted.closePair_eq hsource hne
  refine ⟨(insideCursors [] ps).map fun q => .cursor ⟨q.line, q.column + 1⟩, ?_, ?_⟩
  · rcases hclose with hclose | ⟨hquote, hclose⟩
    · refine handleKey_of_edits_nil hclose hinside ?_ rfl
      rw [hnormal]
      exact congrArg some hstep
    · refine handleKey_of_edits_nil hclose hinside ?_ rfl
      rw [hnormal]
      exact congrArg some ((hinserted.openPair_eq_closePair hsource hne hquote).trans hstep)
  · rw [hselections, List.forall₂_map_left_iff, List.forall₂_map_right_iff, List.forall₂_same]
    exact fun q hq => ⟨q, _, rfl, rfl, rfl, hinserted.toNat_column_add_one hq⟩

/-- A quote typed twice in a comment that ends the line. -/
theorem handleKey_closing_openPair_comment :
    let typed := ((new {}).setSource "x\n-- ".toList).handleKey ['"'] [.cursor ⟨1, 3⟩]
    typed.2 = .ok (.edited ⟨[.insert ⟨1, 3⟩ ['"', '"']], [.cursor ⟨1, 4⟩]⟩)
    ∧ ∃ moved, typed.1.handleKey ['"'] [.cursor ⟨1, 4⟩] = (typed.1, .ok (.edited ⟨[], moved⟩))
        ∧ List.Forall₂ Selection.StepsRight [.cursor ⟨1, 4⟩] moved := by
  have htyped : (((new {}).setSource "x\n-- ".toList).handleKey ['"'] [.cursor ⟨1, 3⟩]).2
      = .ok (.edited ⟨[.insert ⟨1, 3⟩ ['"', '"']], [.cursor ⟨1, 4⟩]⟩) := by
    decide +kernel
  have hkey : KeyBinding.ofName? ['"'] = some (.edit (.openPair '"' '"')) := by decide
  refine ⟨htyped, (handleKey_closing_openPair hkey ?_ htyped ?_ ?_).2 ['"'] (.inr ⟨rfl, hkey⟩)⟩
  all_goals decide +kernel

end Session

end EditorCore
