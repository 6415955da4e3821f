import EditorCore.Proofs.Edit.Sums
import EditorCore.Proofs.Edit.Tracks

/-!
# Lines are indented in order, and selections follow

There is one edit for a touched line whose blanks change, and the edits are in ascending
order, as the lines are. Each replaces the blanks that its
line starts with, all of them a column wide, by other blanks; a position
moves with them to a place that the new line has (`reach_movedBy`).
-/

namespace EditorCore

open TextEdit

variable {t : Text} {ss : List Selection} {settings : IndentSettings}
  {direction : IndentDirection}

/-- **Lines are indented in order.** -/
theorem ascending_indentPlan (t : Text) (settings : IndentSettings)
    (direction : IndentDirection) (ss : List Selection) :
    Ascending (t.indentPlan settings direction ss).edits where
  start_le_stop e he := by
    obtain ⟨r, -, rfl⟩ := List.mem_map.1 he
    unfold Position.rank Reindent.toEdit
    exact Nat.add_le_add_left (Nat.zero_le _) _
  pairwise := by
    refine List.pairwise_map.2 ((t.pairwise_reindents settings direction ss).imp ?_)
    intro r q hrq
    have := r.oldLength.toNat_lt
    unfold Position.rank Reindent.toEdit
    dsimp only
    omega

/-- **New blanks for the blanks that a line starts with.** -/
structure Reindent.Fits (r : Reindent) (t : Text) : Prop where
  line_lt : r.line < .ofNat t.segments.length
  blanks : ∀ c ∈ r.blanks, c = ' ' ∨ c = '\t'
  oldLength : ∃ old rest, t.line r.line.toNat = old ++ rest ∧ r.oldLength.toNat = old.width

theorem fits_of_reindentAt? {line : UInt32} {r : Reindent}
    (hline : line < .ofNat t.segments.length)
    (hfits : (t.line line.toNat).indentation.length < UInt32.size)
    (h : t.reindentAt? settings direction line = some r) : r.Fits t := by
  unfold Text.reindentAt? at h
  dsimp only at h
  split_ifs at h
  obtain rfl := Option.some.inj h
  have hsplit := indentation_append_dropWhile (t.line line.toNat)
  refine ⟨hline, fun c hc => isIndent_of_mem_canonicalBlanks hc, _, _, hsplit.symm, ?_⟩
  rw [width_indentation]
  exact UInt32.toNat_ofNat_of_lt' hfits

namespace Reindent.Fits

variable {r : Reindent}

theorem width_blanks (h : r.Fits t) : r.blanks.width = r.blanks.length :=
  width_eq_length_of_indent h.blanks

theorem le_width (h : r.Fits t) : r.oldLength.toNat ≤ (t.line r.line.toNat).width := by
  obtain ⟨old, rest, hline, hlength⟩ := h.oldLength
  rw [hline, hlength, Text.width_append]
  exact Nat.le_add_right _ _

theorem not_mem_blanks (h : r.Fits t) {c : Char} (hspace : c ≠ ' ') (htab : c ≠ '\t') :
    c ∉ r.blanks := fun hc => (h.blanks c hc).elim hspace htab

theorem within (h : r.Fits t) : r.toEdit.Within t := by
  obtain ⟨old, rest, hline, hlength⟩ := h.oldLength
  refine ⟨rfl, toNat_lt_of_lt_ofNat h.line_lt, h.not_mem_blanks (by decide) (by decide), ?_⟩
  have hzero := Text.take_index_width_append [] (old ++ rest)
  show Text.width (List.take (Text.index (t.line r.line.toNat) r.oldLength.toNat) _)
    = Text.width (List.take (Text.index (t.line r.line.toNat) (Text.width [])) _)
      + (r.oldLength.toNat - 0)
  change Text.width (List.take _ (t.line r.line.toNat))
    = Text.width (List.take _ (t.line r.line.toNat)) + _
  rw [hline, hlength, Text.take_index_width_append]
  rw [List.nil_append] at hzero
  rw [hzero]
  exact (Nat.zero_add _).symm

end Reindent.Fits

/-- **A position moves with the blanks of its line.** -/
theorem reach_movedBy {changes : List Reindent} {p : Position} (hp : t.Reach [] p)
    (hchanges : ∀ r ∈ changes, r.Fits t)
    (horder : changes.Pairwise fun r q => r.line.toNat < q.line.toNat) :
    t.Reach (changes.map (·.toEdit)) (p.movedBy changes) := by
  obtain ⟨hlt, hle⟩ := hp
  change p.column.toNat + 0 ≤ (t.line p.line.toNat).width + 0 at hle
  unfold Position.movedBy
  cases hfind : changes.find? (·.line = p.line) with
  | none =>
    -- no edit is on the line
    have hnone : ∀ size : TextEdit → Nat,
        sumOn size p.line.toNat (changes.map (·.toEdit)) = 0 := by
      refine fun size => sumOn_eq_zero fun e he hline => ?_
      obtain ⟨r, hr, rfl⟩ := List.mem_map.1 he
      have hne := List.find?_eq_none.1 hfind r hr
      rw [decide_eq_true_eq] at hne
      exact absurd (UInt32.toNat_inj.1 hline) hne
    refine ⟨hlt, ?_⟩
    dsimp only
    rw [removed, inserted, hnone, hnone]
    exact hle
  | some r =>
    have hr := List.mem_of_find?_eq_some hfind
    have hline := List.find?_some hfind
    rw [decide_eq_true_eq] at hline
    have hfits := hchanges r hr
    have hsum : ∀ size : TextEdit → Nat,
        sumOn size p.line.toNat (changes.map (·.toEdit)) = size r.toEdit := by
      intro size
      have hedits : (changes.map (·.toEdit)).Pairwise
          fun e f => e.start.line.toNat < f.start.line.toNat := List.pairwise_map.2 horder
      rw [← hline]
      exact sumOn_eq_of_mem hedits (List.mem_map_of_mem hr)
    have hwidth := hfits.le_width
    have hnew : r.newLength.toNat ≤ r.blanks.width :=
      hfits.width_blanks ▸ UInt32.toNat_ofNat.trans_le (Nat.mod_le _ _)
    rw [hline] at hwidth
    refine ⟨hlt, ?_⟩
    dsimp only
    rw [removed, inserted, hsum, hsum]
    show _ + (r.oldLength.toNat - 0) ≤ _ + r.blanks.width
    split_ifs with hcolumn
    · -- among the old blanks: to the end of the new ones
      omega
    · -- after them: at the same distance from the text
      rw [UInt32.not_le] at hcolumn
      have hadd := toNat_add_le (p.column - r.oldLength) r.newLength
      have hsub := UInt32.toNat_sub_of_le _ _ (UInt32.le_of_lt hcolumn)
      have hlt := UInt32.lt_iff_toNat_lt.1 hcolumn
      omega

/-- **Lines are indented with their selections.** -/
theorem tracks_indentPlan (hsums : t.SumsFit settings direction ss)
    (hss : ∀ s ∈ ss, t.Reach [] s.anchor ∧ t.Reach [] s.head) :
    (t.indentPlan settings direction ss).Tracks t
      ∧ (t.indentPlan settings direction ss).KeepsEndings t := by
  have hfits : ∀ r ∈ t.reindents settings direction ss, r.Fits t := by
    intro r hr
    obtain ⟨htouched, hr⟩ := Text.mem_reindents hr
    have hlt : r.line < .ofNat t.segments.length :=
      UInt32.lt_iff_toNat_lt.2 <| htouched.lt fun s hs =>
        UInt32.lt_iff_toNat_lt.1 (Selection.bounds_of_ends (hss s hs)).2.1
    exact fits_of_reindentAt? hlt (hsums.widths _ htouched).length_lt hr
  have horder := t.pairwise_reindents settings direction ss
  have hascending := ascending_indentPlan t settings direction ss
  unfold Text.indentPlan at *
  generalize t.reindents settings direction ss = changes at *
  refine ⟨⟨hascending, fun e he => ?_, fun q hq => ?_⟩, fun i hreturn => ?_⟩
  · obtain ⟨r, hr, rfl⟩ := List.mem_map.1 he
    exact (hfits r hr).within
  · obtain ⟨s, hs, rfl⟩ := List.mem_map.1 hq
    rw [Selection.mem_sortByStart] at hs
    exact ⟨reach_movedBy (hss s hs).1 hfits horder, reach_movedBy (hss s hs).2 hfits horder⟩
  · refine Text.getLast?_segment_of_edited (fun e he => ?_) hreturn
    obtain ⟨r, hr, rfl⟩ := List.mem_map.1 he
    exact ⟨(hfits r hr).not_mem_blanks (by decide) (by decide), .inr rfl⟩

end EditorCore
