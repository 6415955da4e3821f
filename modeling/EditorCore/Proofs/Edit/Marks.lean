import EditorCore.Proofs.Edit.Splice
import EditorCore.Proofs.Edit.Undo

/-!
# Marks between the characters of a text

A position that lies between two characters is told by the text before it: its
line is the number of line feeds there, and its column is the width of the line
on which that text ends (`Text.Marks`). It is found where it was put, whatever
comes after, unless it stands behind the carriage return of a terminator
(`Text.Marks.charsBefore_eq`).

This is how positions are followed through insertions. The text before a
position grows by what is inserted there, and the log of a plan has, for the
line it ends on, by how much wider that line has become (`Text.Grown`). That
holds at the start, and is kept by passing over more of the text and by every
insertion that adds no line. So the position that the log moves a mark to is a
mark of the grown text (`Text.Grown.marks`).
-/

namespace EditorCore

open TextEdit

namespace Text

variable {s t : Text} {p q : Position}

/-! ## The line a text ends on -/

/-- **The line a text ends on**: what comes after its last line feed. -/
def lastLine (t : Text) : Text := t.rtakeWhile (· != '\n')

/-- A text without a line feed is one line. -/
theorem lastLine_of_not_mem (h : '\n' ∉ t) : t.lastLine = t :=
  List.rtakeWhile_eq_self_iff.2 fun _ hc => bne_iff_ne.2 fun heq => h (heq ▸ hc)

/-- A text without a line feed goes on with the line before it. -/
theorem lastLine_append_of_not_mem (s : Text) (h : '\n' ∉ t) :
    (s ++ t).lastLine = s.lastLine ++ t := by
  induction t using List.reverseRecOn with
  | nil => rw [List.append_nil, List.append_nil]
  | append_singleton t c ih =>
    rw [List.mem_append, List.mem_singleton, not_or] at h
    rw [← List.append_assoc, lastLine, List.rtakeWhile_concat,
      if_pos (bne_iff_ne.2 (Ne.symm h.2)), ← lastLine, ih h.1, List.append_assoc]

/-- A line feed begins the line anew. -/
theorem lastLine_append_of_mem (s : Text) (h : '\n' ∈ t) : (s ++ t).lastLine = t.lastLine := by
  induction t using List.reverseRecOn with
  | nil => exact absurd h List.not_mem_nil
  | append_singleton t c ih =>
    rw [← List.append_assoc, lastLine, lastLine, List.rtakeWhile_concat, List.rtakeWhile_concat]
    split_ifs with hc
    · rw [List.mem_append, List.mem_singleton] at h
      rw [← lastLine, ← lastLine, ih (h.resolve_right fun heq => bne_iff_ne.1 hc heq.symm)]
    · rfl

/-- After a line feed a text without another is one line. -/
theorem lastLine_append_newline (s : Text) (h : '\n' ∉ t) : (s ++ '\n' :: t).lastLine = t := by
  have hnewline : (s ++ ['\n']).lastLine = [] := List.rtakeWhile_concat_neg _ _ _ (by decide)
  rw [List.append_cons, lastLine_append_of_not_mem _ h, hnewline, List.nil_append]

/-- A text is the line it ends on, by itself or after a line feed. -/
theorem eq_lastLine_or_exists (t : Text) :
    '\n' ∉ t.lastLine ∧ (t = t.lastLine ∨ ∃ s, t = s ++ '\n' :: t.lastLine) := by
  refine ⟨fun h => absurd (List.mem_rtakeWhile_imp h) (by decide), ?_⟩
  have hsplit := List.rdropWhile_append_rtakeWhile (l := t) (p := fun c => c != '\n')
  have hlast := List.rdropWhile_last_not (fun c => c != '\n') t
  rcases List.eq_nil_or_concat' (t.rdropWhile fun c => c != '\n') with hnil | ⟨s, c, hs⟩
  · rw [hnil] at hsplit
    exact .inl hsplit.symm
  · rw [hs] at hsplit
    have hc := hlast (by simp [hs])
    simp only [hs, List.getLast_append_singleton, bne_iff_ne, ne_eq, not_not] at hc
    rw [hc, ← List.append_cons] at hsplit
    exact .inr ⟨s, hsplit.symm⟩

/-- The segments of a text, each with the line feed after it. -/
theorem flatMap_segments (t : Text) : t.segments.flatMap (· ++ ['\n']) = t ++ ['\n'] := by
  have hjoin := intercalate_append_cons t.segments [] []
  have hsegments := segments_append_newline t []
  rw [segments_nil] at hsegments
  rw [← hsegments, intercalate_segments, List.flatMap_nil, List.append_nil, List.append_nil] at hjoin
  exact hjoin.symm

/-- **Where one text ends and another goes on**: on which line that is, what
comes before that line, and what the line reads. -/
theorem segment_append_count (s t : Text) :
    s.count '\n' < (s ++ t).segments.length
      ∧ (s ++ t).before (s.count '\n') ++ s.lastLine = s
      ∧ (s ++ t).segment (s.count '\n') = s.lastLine ++ t.segment 0 := by
  obtain ⟨hnot, hsplit⟩ := s.eq_lastLine_or_exists
  obtain ⟨g, gs, hg⟩ := List.exists_cons_of_ne_nil (segments_ne_nil t)
  have hfirst : segments (s.lastLine ++ t) = (s.lastLine ++ g) :: gs := by
    rw [segments_append_of_not_mem hnot, hg, List.modifyHead_cons]
  have hzero : t.segment 0 = g := by rw [segment, hg, List.getD_cons_zero]
  have hcount : s.lastLine.count '\n' = 0 := List.count_eq_zero.2 hnot
  rw [hzero]
  rcases hsplit with hself | ⟨r, hr⟩
  · rw [hself, lastLine_of_not_mem hnot, hcount, before, segment, hfirst]
    exact ⟨Nat.zero_lt_succ _, rfl, rfl⟩
  · generalize s.lastLine = l at *
    subst hr
    have hsegments : segments (r ++ '\n' :: l ++ t) = segments r ++ (l ++ g) :: gs := by
      rw [List.append_assoc, List.cons_append, segments_append_newline, hfirst]
    have hlength : (r ++ '\n' :: l).count '\n' = r.segments.length := by
      rw [List.count_append, List.count_cons_self, hcount, length_segments]
    rw [hlength, before, segment, hsegments, List.take_left, flatMap_segments,
      List.getD_append_right _ _ _ _ le_rfl, Nat.sub_self, List.getD_cons_zero, List.length_append,
      List.append_assoc]
    exact ⟨Nat.lt_add_of_pos_right (Nat.zero_lt_succ _), rfl, rfl⟩

/-- What comes before a line is as many line feeds. -/
theorem count_before {i : Nat} (h : i ≤ t.segments.length) : (t.before i).count '\n' = i := by
  induction i with
  | zero => rfl
  | succ i ih =>
    rw [before_succ h, List.count_append, List.count_append, ih (Nat.le_of_succ_le h),
      List.count_eq_zero.2 (not_mem_segment t i)]
    rfl

/-- A first part of a line begins on that line. -/
theorem lastLine_before_append {i : Nat} (h : i < t.segments.length) (hs : '\n' ∉ s) :
    (t.before i ++ s).lastLine = s := by
  cases i with
  | zero => exact lastLine_of_not_mem hs
  | succ i =>
    rw [before_succ (Nat.lt_of_succ_lt h), List.append_assoc, List.singleton_append,
      lastLine_append_newline _ hs]

/-! ## Marks -/

/-- **A position marks the end of a text**: the line on which the text ends, and
the column at which that line does. -/
structure Marks (s : Text) (p : Position) : Prop where
  line_eq : p.line.toNat = s.count '\n'
  column_eq : p.column.toNat = s.lastLine.width

/-- Before a position of a line are the lines before and the first part of its
own. -/
theorem take_charsBefore (hline : p.line.toNat < t.segments.length) :
    t.take (t.charsBefore p) = t.before p.line.toNat
      ++ (t.line p.line.toNat).take ((t.line p.line.toNat).index p.column.toNat) := by
  have hindex := index_le_length (t.line p.line.toNat) p.column.toNat
  rw [charsBefore_of_lt hline, take_before_add hline (hindex.trans (length_line_le t _)),
    take_segment hindex]

/-- **A position between two characters marks the end of the text before
it.** -/
theorem marks_take_charsBefore (hline : p.line.toNat < t.segments.length) (hp : t.AtBoundary p) :
    Marks (t.take (t.charsBefore p)) p := by
  have hindex := index_le_length (t.line p.line.toNat) p.column.toNat
  have hnot : '\n' ∉ (t.line p.line.toNat).take ((t.line p.line.toNat).index p.column.toNat) := by
    rw [← take_segment hindex]
    exact fun hmem => not_mem_segment t _ (List.mem_of_mem_take hmem)
  rw [take_charsBefore hline]
  refine ⟨?_, ?_⟩
  · rw [List.count_append, count_before hline.le, List.count_eq_zero.2 hnot, Nat.add_zero]
  · rw [lastLine_before_append hline hnot]
    exact hp.symm

/-- **The line a text ends on goes on** with the first line of another, or ends
there with no carriage return that would belong to its terminator. -/
def GoesOn (s t : Text) : Prop := t.segment 0 ≠ [] ∨ s.lastLine.getLast? ≠ some '\r'

/-- After a character that ends no line it does. -/
theorem goesOn_concat (s t : Text) {c : Char} (hc : c ≠ '\n' ∧ c ≠ '\r') :
    GoesOn (s ++ [c]) t := by
  have hnot : '\n' ∉ [c] := fun h => hc.1 (List.mem_singleton.1 h).symm
  refine .inr ?_
  rw [lastLine_append_of_not_mem s hnot, List.getLast?_concat]
  exact fun h => hc.2 (Option.some.inj h)

/-- Before a character other than a line feed it does. -/
theorem goesOn_cons (s t : Text) {c : Char} (hc : c ≠ '\n') : GoesOn s (c :: t) := by
  obtain ⟨g, gs, hg⟩ := List.exists_cons_of_ne_nil (segments_ne_nil t)
  refine .inl ?_
  rw [segment, segments_cons_of_ne hc, hg]
  exact List.cons_ne_nil _ _

/-- The line of a mark goes on with what follows, unless the mark is behind the
carriage return of its terminator. -/
theorem line_append_count (hgoes : s.GoesOn t) :
    (s ++ t).line (s.count '\n') = s.lastLine ++ (t.segment 0).dropReturn := by
  rw [line, (segment_append_count s t).2.2, dropReturn_append hgoes]

namespace Marks

variable (h : s.Marks p) (hgoes : s.GoesOn t)

include h hgoes

/-- **A mark lies right after the text it marks the end of.** -/
theorem charsBefore_eq : (s ++ t).charsBefore p = s.length := by
  obtain ⟨hlt, hbefore, -⟩ := segment_append_count s t
  rw [charsBefore_of_lt (h.line_eq ▸ hlt), h.line_eq, h.column_eq, line_append_count hgoes,
    index_width_append, ← List.length_append, hbefore]

theorem offset_eq : (s ++ t).offset p = s.byteSize := by
  rw [offset_eq_byteAt, h.charsBefore_eq hgoes, byteAt_length_append]

/-- A mark lies between two characters. -/
theorem atBoundary : (s ++ t).AtBoundary p := by
  rw [AtBoundary, h.line_eq, h.column_eq, line_append_count hgoes, take_index_width_append]

/-- A mark is no further than its line is wide. -/
theorem column_le : p.column.toNat ≤ ((s ++ t).line p.line.toNat).width := by
  rw [h.line_eq, h.column_eq, line_append_count hgoes, width_append]
  exact Nat.le_add_right _ _

end Marks

/-- The mark of a longer text comes later. -/
theorem Marks.rank_lt (hp : s.Marks p) (hq : (s ++ t).Marks q) (ht : t ≠ []) :
    p.rank < q.rank := by
  have hline := hq.line_eq
  have hcolumn := hq.column_eq
  have hbound := p.column.toNat_lt
  rw [List.count_append, ← hp.line_eq] at hline
  unfold Position.rank
  by_cases hmem : '\n' ∈ t
  · have hcount := List.count_pos_iff.2 hmem
    omega
  · have hpos := width_pos ht
    rw [lastLine_append_of_not_mem _ hmem, width_append, ← hp.column_eq] at hcolumn
    omega

/-- A text has one mark. -/
theorem Marks.unique (hp : s.Marks p) (hq : s.Marks q) : p = q := by
  obtain ⟨line, column⟩ := p
  obtain ⟨line', column'⟩ := q
  rw [Position.mk.injEq, ← UInt32.toNat_inj, ← UInt32.toNat_inj]
  exact ⟨hp.line_eq.trans hq.line_eq.symm, hp.column_eq.trans hq.column_eq.symm⟩

/-! ## Marks through insertions -/

/-- **A text has grown by what a log has**: it has as many lines as it had, the
line it ends on is wider by what the log has for that line, and the log has
nothing for later lines. -/
structure Grown (s t : Text) (log : ShiftLog) : Prop where
  count_eq : t.count '\n' = s.count '\n'
  width_eq : ∀ line : UInt32, line.toNat = s.count '\n' →
    t.lastLine.width = s.lastLine.width + log.total line
  total_eq_zero : ∀ line : UInt32, s.count '\n' < line.toNat → log.total line = 0

theorem grown_nil (s : Text) : Grown s s [] := ⟨rfl, fun _ _ => rfl, fun _ _ => rfl⟩

namespace Grown

variable {g : Text} {log : ShiftLog} {width : UInt32}

/-- **Passing over more of a text** grows both alike. -/
theorem append (h : Grown s t log) (g : Text) : Grown (s ++ g) (t ++ g) log where
  count_eq := by rw [List.count_append, List.count_append, h.count_eq]
  width_eq line hline := by
    rw [List.count_append] at hline
    by_cases hmem : '\n' ∈ g
    · -- on a new line nothing has been inserted yet
      have hcount := List.count_pos_iff.2 hmem
      rw [lastLine_append_of_mem _ hmem, lastLine_append_of_mem _ hmem,
        h.total_eq_zero line (by omega), Nat.add_zero]
    · rw [List.count_eq_zero.2 hmem, Nat.add_zero] at hline
      rw [lastLine_append_of_not_mem _ hmem, lastLine_append_of_not_mem _ hmem, width_append,
        width_append, h.width_eq line hline, Nat.add_right_comm]
  total_eq_zero line hline := by
    rw [List.count_append] at hline
    exact h.total_eq_zero line (Nat.lt_of_le_of_lt (Nat.le_add_right _ _) hline)

/-- **An insertion** grows a text by what it adds to the log. -/
theorem insert (h : Grown s t log) (hp : s.Marks p) (hg : '\n' ∉ g)
    (hwidth : g.width = width.toNat) : Grown s (t ++ g) ((p.line, width) :: log) where
  count_eq := by rw [List.count_append, h.count_eq, List.count_eq_zero.2 hg, Nat.add_zero]
  width_eq line hline := by
    have hsame : p.line = line := UInt32.toNat_inj.1 (hp.line_eq.trans hline.symm)
    rw [lastLine_append_of_not_mem _ hg, width_append, h.width_eq line hline, ShiftLog.total,
      if_pos hsame, hwidth, Nat.add_assoc, Nat.add_comm width.toNat]
  total_eq_zero line hline := by
    have hother : p.line ≠ line := fun heq => by
      rw [← heq, hp.line_eq] at hline
      exact Nat.lt_irrefl _ hline
    rw [ShiftLog.total, if_neg hother, h.total_eq_zero line hline]

/-- **A mark moves by what the log has for its line**, where the columns of that
line are words. -/
theorem marks (h : Grown s t log) (hp : s.Marks p) (hwords : t.lastLine.width < UInt32.size) :
    t.Marks ⟨p.line, p.column + log.on p.line⟩ := by
  refine ⟨hp.line_eq.trans h.count_eq.symm, ?_⟩
  have hwidth := h.width_eq p.line hp.line_eq
  show (p.column + log.on p.line).toNat = _
  rw [UInt32.toNat_add, ShiftLog.toNat_on, Nat.add_mod_mod, hp.column_eq, ← hwidth]
  exact Nat.mod_eq_of_lt hwords

/-- **A mark moves back by what the log has for its line**, from the text that has
grown. -/
theorem marks_back (h : Grown s t log) (hp : t.Marks p) :
    s.Marks ⟨p.line, p.column - log.on p.line⟩ := by
  have hline := hp.line_eq.trans h.count_eq
  have hwidth := h.width_eq p.line hline
  have hcolumn := hp.column_eq
  have hbound := p.column.toNat_lt
  have htotal : (log.on p.line).toNat = log.total p.line := by
    rw [ShiftLog.toNat_on, Nat.mod_eq_of_lt (by omega)]
  refine ⟨hline, ?_⟩
  show (p.column - log.on p.line).toNat = _
  rw [UInt32.toNat_sub_of_le _ _ (UInt32.le_iff_toNat_le.2 (by omega))]
  omega

end Grown

/-! ## Edits in one pass -/

/-- **The text up to an edit** is copied, and its new text is put after it. -/
theorem spliced_cons {g : Text} {e : TextEdit} (h : s ++ g = t.take (t.charsBefore e.start))
    (es : List TextEdit) :
    t.spliced s.byteSize (e :: es) = g ++ e.newText ++ t.spliced (e.stopByte t) es := by
  have hfront : t.takeBytes (t.offset e.start) = s ++ g := by
    rw [offset_eq_byteAt, takeBytes_byteAt (charsBefore_le_length t e.start), h]
  rw [spliced, hfront, ← byteAt_length_append s g, dropBytes_byteAt (by simp), List.drop_left]

/-- **The text up to an insertion** is copied, and the text is put after it. -/
theorem spliced_insert {g : Text} {es : List TextEdit}
    (h : s ++ g = t.take (t.charsBefore p)) (text : Text) :
    t.spliced s.byteSize (insert p text :: es) = g ++ text ++ t.spliced (t.offset p) es := by
  have hstop : (insert p text).stopByte t = t.offset p := Nat.max_self _
  rw [← hstop]
  exact spliced_cons h es

end Text

end EditorCore
