import EditorCore.Edit.Plan
import EditorCore.Proofs.Selection.Normal
import EditorCore.Proofs.Text.Lines

/-!
# Where positions lie in a text

A position is found by its line and then by its column, and either may lie
outside the text. Wherever it lies, it is found between two characters, with
some number of **characters before** it, and its offset is the byte at which
the character after it starts (`offset_eq_byteAt`). That number does not fall
from one position to a later one (`charsBefore_mono`), which is all that
edits in order need.
-/

namespace EditorCore

namespace Text

/-! ## Finding a line -/

/-- The rest of a text from a line on. -/
theorem fromLine?_of_lt {t : Text} {line : Nat} (h : line < t.segments.length) :
    t.fromLine? line = some (t.segment line ++ t.after line) := by
  induction t generalizing line with
  | nil =>
    obtain rfl : line = 0 := by simpa using h
    rfl
  | cons c t ih =>
    cases line with
    | zero =>
      rw [fromLine?]
      exact congrArg some (before_append_segment_append_after h).symm
    | succ line =>
      rw [fromLine?]
      by_cases hc : c = '\n'
      · subst hc
        rw [segments_cons_newline, List.length_cons, Nat.add_lt_add_iff_right] at h
        rw [if_pos rfl, ih h]
        rfl
      · rw [length_segments_cons_of_ne hc] at h
        obtain ⟨g, gs, hg⟩ := List.exists_cons_of_ne_nil (segments_ne_nil t)
        rw [if_neg hc, ih h, segment, segment, after, after, segments_cons_of_ne hc, hg]
        rfl

/-- There is no line past the last. -/
theorem fromLine?_of_length_le {t : Text} {line : Nat} (h : t.segments.length ≤ line) :
    t.fromLine? line = none := by
  have hpos := List.length_pos_of_ne_nil (segments_ne_nil t)
  induction t generalizing line with
  | nil =>
    obtain ⟨line, rfl⟩ := Nat.exists_eq_succ_of_ne_zero (by omega : line ≠ 0)
    rfl
  | cons c t ih =>
    obtain ⟨line, rfl⟩ := Nat.exists_eq_succ_of_ne_zero (by omega : line ≠ 0)
    have htail := List.length_pos_of_ne_nil (segments_ne_nil t)
    rw [fromLine?]
    by_cases hc : c = '\n'
    · subst hc
      rw [segments_cons_newline, List.length_cons, Nat.succ_eq_add_one,
        Nat.add_le_add_iff_right] at h
      rw [if_pos rfl, ih h htail]
    · rw [length_segments_cons_of_ne hc] at h
      rw [if_neg hc, ih h htail]

/-- The first line of the rest of a text is the line it starts with. -/
theorem firstLine_segment_append_after (t : Text) (line : Nat) :
    firstLine (t.segment line ++ t.after line) = t.line line := by
  have hnot : ∀ c ∈ t.segment line, (c != '\n') = true := by
    intro c hc
    rw [bne_iff_ne]
    rintro rfl
    rw [segment, List.getD_eq_getElem?_getD] at hc
    cases hg : t.segments[line]? with
    | none => simp [hg] at hc
    | some g =>
      rw [hg, Option.getD_some] at hc
      exact not_mem_of_mem_segments (List.mem_of_getElem? hg) hc
  rw [firstLine, List.takeWhile_append_of_pos hnot, Text.line]
  rcases after_eq_nil_or_cons t line with h | ⟨u, h⟩ <;> rw [h] <;> simp

/-! ## The characters before a position -/

/-- **The number of characters before a position.** -/
def charsBefore (t : Text) (p : Position) : Nat :=
  if p.line.toNat < t.segments.length then
    (t.before p.line.toNat).length + (t.line p.line.toNat).index p.column.toNat
  else t.length

theorem charsBefore_of_lt {t : Text} {p : Position} (h : p.line.toNat < t.segments.length) :
    t.charsBefore p
      = (t.before p.line.toNat).length + (t.line p.line.toNat).index p.column.toNat :=
  if_pos h

theorem charsBefore_of_length_le {t : Text} {p : Position}
    (h : t.segments.length ≤ p.line.toNat) : t.charsBefore p = t.length :=
  if_neg (Nat.not_lt_of_le h)

/-- **The offset of a position is the byte at which the character after it
starts.** -/
theorem offset_eq_byteAt (t : Text) (p : Position) : t.offset p = t.byteAt (t.charsBefore p) := by
  unfold offset
  rcases Nat.lt_or_ge p.line.toNat t.segments.length with h | h
  · have hsplit := before_append_segment_append_after h
    rw [List.append_assoc] at hsplit
    have hsize := congrArg byteSize hsplit
    rw [byteSize_append] at hsize
    have hlen := index_le_length (t.line p.line.toNat) p.column.toNat
    rw [fromLine?_of_lt h, charsBefore_of_lt h]
    dsimp only
    rw [firstLine_segment_append_after, ← hsize, Nat.add_sub_cancel]
    conv_rhs =>
      enter [1]
      rw [← before_append_line_append h, List.append_assoc]
    rw [byteAt_append_add, byteAt_append_of_le hlen]
    rfl
  · rw [fromLine?_of_length_le h, charsBefore_of_length_le h, byteAt_length]

/-- What comes before a line, up to a column of it, is part of the text. -/
theorem length_before_add_index_le (t : Text) (line column : Nat) :
    (t.before line).length + (t.line line).index column
      ≤ (t.before line).length + (t.segment line).length := by
  exact Nat.add_le_add_left ((index_le_length (t.line line) column).trans (length_line_le t line)) _

/-- A position lies within the text. -/
theorem charsBefore_le_length (t : Text) (p : Position) : t.charsBefore p ≤ t.length := by
  rcases Nat.lt_or_ge p.line.toNat t.segments.length with h | h
  · have hlen := length_before_add_index_le t p.line.toNat p.column.toNat
    have hsplit := congrArg List.length (before_append_segment_append_after h)
    rw [List.length_append, List.length_append] at hsplit
    rw [charsBefore_of_lt h]
    omega
  · rw [charsBefore_of_length_le h]

/-- **Later positions lie after more characters.** -/
theorem charsBefore_mono {t : Text} {p q : Position} (h : p.rank ≤ q.rank) :
    t.charsBefore p ≤ t.charsBefore q := by
  rw [← Position.le_iff_rank_le] at h
  change p.line < q.line ∨ p.line = q.line ∧ p.column ≤ q.column at h
  rcases Nat.lt_or_ge q.line.toNat t.segments.length with hq | hq
  · rcases h with hlt | ⟨heq, hle⟩
    · rw [UInt32.lt_iff_toNat_lt] at hlt
      have hp : p.line.toNat < t.segments.length := hlt.trans hq
      have hlen := length_before_add_index_le t p.line.toNat p.column.toNat
      have hnext := congrArg List.length (before_succ hp)
      have hmono := t.length_before_mono hlt
      rw [List.length_append, List.length_append, List.length_singleton] at hnext
      dsimp only [Nat.succ_eq_add_one] at hmono
      rw [charsBefore_of_lt hp, charsBefore_of_lt hq]
      omega
    · rw [charsBefore_of_lt hq, charsBefore_of_lt (heq ▸ hq), heq]
      exact Nat.add_le_add_left (index_mono _ (UInt32.le_iff_toNat_le.1 hle)) _
  · rw [charsBefore_of_length_le hq]
    exact charsBefore_le_length t p

/-- **Later positions have later offsets.** -/
theorem offset_mono {t : Text} {p q : Position} (h : p.rank ≤ q.rank) :
    t.offset p ≤ t.offset q := by
  rw [offset_eq_byteAt, offset_eq_byteAt]
  exact t.byteAt_mono (charsBefore_mono h)

end Text

end EditorCore
