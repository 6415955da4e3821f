import Mathlib
import EditorCore.Selection

/-!
# Selections in normal form

Positions are ordered by line and then by column, which is the order of
their **ranks**, numbers that run on from the end of one line to the start
of the next. With ranks, what is to be known of the bounds of selections is
arithmetic.

A list in normal form is one where every selection ends before the next one
starts (`pairwise_normalize`). Its bounds are ends of the selections it was
made of, so whatever holds of those holds of them (`ends_normalize`).
-/

namespace EditorCore

namespace Position

/-! ## Ranks -/

/-- The place of a position in the order of all positions. -/
def rank (p : Position) : Nat := p.line.toNat * 2 ^ 32 + p.column.toNat

/-- A position is determined by its rank. -/
theorem rank_inj {p q : Position} : p.rank = q.rank ↔ p = q := by
  refine ⟨fun h => ?_, fun h => h ▸ rfl⟩
  have hp := p.column.toNat_lt
  have hq := q.column.toNat_lt
  unfold rank at h
  obtain ⟨line, column⟩ := p
  obtain ⟨line', column'⟩ := q
  rw [Position.mk.injEq, ← UInt32.toNat_inj, ← UInt32.toNat_inj]
  dsimp only at *
  omega

/-- The order of positions is that of their ranks. -/
theorem lt_iff_rank_lt {p q : Position} : p < q ↔ p.rank < q.rank := by
  have hp := p.column.toNat_lt
  have hq := q.column.toNat_lt
  show p.line < q.line ∨ p.line = q.line ∧ p.column < q.column ↔ _
  rw [UInt32.lt_iff_toNat_lt, UInt32.lt_iff_toNat_lt, ← UInt32.toNat_inj]
  unfold rank
  omega

/-- The order of positions is that of their ranks. -/
theorem le_iff_rank_le {p q : Position} : p ≤ q ↔ p.rank ≤ q.rank := by
  have hp := p.column.toNat_lt
  have hq := q.column.toNat_lt
  show p.line < q.line ∨ p.line = q.line ∧ p.column ≤ q.column ↔ _
  rw [UInt32.lt_iff_toNat_lt, UInt32.le_iff_toNat_le, ← UInt32.toNat_inj]
  unfold rank
  omega

theorem rank_max (p q : Position) : (max p q).rank = max p.rank q.rank := by
  show (if p ≤ q then q else p).rank = _
  split_ifs with h <;> rw [le_iff_rank_le] at h <;> omega

theorem rank_min (p q : Position) : (min p q).rank = min p.rank q.rank := by
  show (if p ≤ q then p else q).rank = _
  split_ifs with h <;> rw [le_iff_rank_le] at h <;> omega

end Position

namespace Selection

/-! ## Bounds -/

theorem start_le_stop (s : Selection) : s.start.rank ≤ s.stop.rank := by
  rw [start, stop, Position.rank_min, Position.rank_max]
  omega

/-- A cursor starts and stops at its head. -/
theorem start_eq_head_of_isEmpty {s : Selection} (h : s.isEmpty) : s.start = s.head := by
  obtain ⟨anchor, head⟩ := s
  obtain rfl : anchor = head := by simpa [isEmpty] using h
  show (if anchor ≤ anchor then anchor else anchor) = anchor
  split_ifs <;> rfl

@[simp] theorem start_cursor (p : Position) : (cursor p).start = p :=
  start_eq_head_of_isEmpty (decide_eq_true rfl)

@[simp] theorem stop_cursor (p : Position) : (cursor p).stop = p := by
  show (if p ≤ p then p else p) = p
  split_ifs <;> rfl

/-- An empty selection is the cursor at its head. -/
theorem eq_cursor_of_isEmpty {s : Selection} (h : s.isEmpty) : s = cursor s.head := by
  obtain ⟨anchor, head⟩ := s
  obtain rfl : anchor = head := of_decide_eq_true h
  rfl

/-- Empty selections are the cursors at their heads. -/
theorem exists_eq_map_cursor {ss : List Selection} (h : ∀ s ∈ ss, s.isEmpty) :
    ∃ ps : List Position, ss = ps.map cursor := by
  refine ⟨ss.map (·.head), ?_⟩
  rw [List.map_map]
  conv_lhs => rw [← List.map_id ss]
  exact List.map_congr_left fun s hs => eq_cursor_of_isEmpty (h s hs)

/-- Between cursors there is a gap where they are in order and all different. -/
theorem pairwise_map_cursor {ps : List Position} :
    (ps.map cursor).Pairwise (fun s t => s.stop.rank < t.start.rank)
      ↔ ps.Pairwise fun p q => p.rank < q.rank := by
  simp only [List.pairwise_map, stop_cursor, start_cursor]

/-- A cursor is a selection whose bounds coincide. -/
theorem isEmpty_iff_rank_eq {s : Selection} : s.isEmpty ↔ s.start.rank = s.stop.rank := by
  rw [isEmpty, decide_eq_true_eq, start, stop, Position.rank_min, Position.rank_max,
    ← Position.rank_inj]
  omega

/-- What holds of both ends of a selection holds of its bounds. -/
theorem bounds_of_ends {P : Position → Prop} {s : Selection} (h : P s.anchor ∧ P s.head) :
    P s.start ∧ P s.stop := by
  have hstart : s.start = if s.anchor ≤ s.head then s.anchor else s.head := rfl
  have hstop : s.stop = if s.anchor ≤ s.head then s.head else s.anchor := rfl
  rw [hstart, hstop]
  split_ifs
  · exact h
  · exact h.symm

/-- The ends of a selection between two bounds are these bounds. -/
theorem ends_withBounds {P : Position → Prop} {start stop : Position} (s : Selection)
    (hstart : P start) (hstop : P stop) :
    P (s.withBounds start stop).anchor ∧ P (s.withBounds start stop).head := by
  unfold withBounds
  split_ifs
  · exact ⟨hstart, hstop⟩
  · exact ⟨hstop, hstart⟩

/-- The bounds of a selection between two positions in order are these
positions. -/
theorem rank_withBounds {start stop : Position} (s : Selection) (h : start.rank ≤ stop.rank) :
    (s.withBounds start stop).start.rank = start.rank
      ∧ (s.withBounds start stop).stop.rank = stop.rank := by
  unfold withBounds Selection.start Selection.stop
  rw [Position.rank_min, Position.rank_max]
  split_ifs <;> dsimp only <;> omega

/-! ## Merging -/

/-- A selection that absorbs a later one starts where it did and stops where
the later of the two does. -/
theorem rank_absorb {s t : Selection} :
    (absorb s t).start.rank = s.start.rank
      ∧ (absorb s t).stop.rank = max s.stop.rank t.stop.rank := by
  have hle : s.start.rank ≤ (max s.stop t.stop).rank := by
    have := s.start_le_stop
    rw [Position.rank_max]
    omega
  rw [absorb, ← Position.rank_max]
  exact rank_withBounds _ hle

/-- What holds of the ends of two selections holds of the ends of the one
that stands for both. -/
theorem ends_absorb {P : Position → Prop} {s t : Selection} (hs : P s.anchor ∧ P s.head)
    (ht : P t.anchor ∧ P t.head) : P (absorb s t).anchor ∧ P (absorb s t).head := by
  refine ends_withBounds _ (bounds_of_ends hs).1 ?_
  have hmax : max s.stop t.stop = if s.stop ≤ t.stop then t.stop else s.stop := rfl
  rw [hmax]
  split_ifs
  · exact (bounds_of_ends ht).2
  · exact (bounds_of_ends hs).2

/-- Selections that start in order still do when the first one absorbs the
second. -/
theorem pairwise_absorb {s t : Selection} {ts : List Selection}
    (h : (s :: t :: ts).Pairwise fun s t => s.start.rank ≤ t.start.rank) :
    (absorb s t :: ts).Pairwise fun s t => s.start.rank ≤ t.start.rank := by
  obtain ⟨hs, ht⟩ := List.pairwise_cons.1 h
  refine List.pairwise_cons.2 ⟨fun u hu => ?_, (List.pairwise_cons.1 ht).2⟩
  rw [rank_absorb.1]
  exact hs u (List.mem_cons_of_mem t hu)

/-- No selection of a merged list starts before the first one does. -/
theorem start_le_of_mem_mergeInto {s u : Selection} {ts : List Selection}
    (h : (s :: ts).Pairwise fun s t => s.start.rank ≤ t.start.rank) (hu : u ∈ mergeInto s ts) :
    s.start.rank ≤ u.start.rank := by
  induction ts generalizing s with
  | nil =>
    rw [mergeInto, List.mem_singleton] at hu
    rw [hu]
  | cons t ts ih =>
    obtain ⟨hs, ht⟩ := List.pairwise_cons.1 h
    rw [mergeInto] at hu
    split_ifs at hu with hlt
    · rcases List.mem_cons.1 hu with rfl | hu
      · exact Nat.le_refl _
      · exact (hs t List.mem_cons_self).trans (ih ht hu)
    · rw [← rank_absorb.1]
      exact ih (pairwise_absorb h) hu

/-- **Merging a list in the order of its starts leaves gaps.** -/
theorem pairwise_mergeInto {s : Selection} {ts : List Selection}
    (h : (s :: ts).Pairwise fun s t => s.start.rank ≤ t.start.rank) :
    (mergeInto s ts).Pairwise fun s t => s.stop.rank < t.start.rank := by
  induction ts generalizing s with
  | nil => exact List.pairwise_singleton _ s
  | cons t ts ih =>
    have ht := (List.pairwise_cons.1 h).2
    rw [mergeInto]
    split_ifs with hlt
    · rw [Position.lt_iff_rank_lt] at hlt
      exact List.pairwise_cons.2
        ⟨fun u hu => hlt.trans_le (start_le_of_mem_mergeInto ht hu), ih ht⟩
    · exact ih (pairwise_absorb h)

/-- Selections with gaps between them are left as they are. -/
theorem mergeInto_of_pairwise {s : Selection} {ts : List Selection}
    (h : (s :: ts).Pairwise fun s t => s.stop.rank < t.start.rank) :
    mergeInto s ts = s :: ts := by
  induction ts generalizing s with
  | nil => rfl
  | cons t ts ih =>
    obtain ⟨hs, ht⟩ := List.pairwise_cons.1 h
    rw [mergeInto, if_pos (Position.lt_iff_rank_lt.2 (hs t List.mem_cons_self)), ih ht]

/-- **Cursors merge into cursors**: of those in order, only equal ones meet. -/
theorem isEmpty_mergeInto {s : Selection} {ts : List Selection}
    (h : (s :: ts).Pairwise fun s t => s.start.rank ≤ t.start.rank) (hs : s.isEmpty)
    (hts : ∀ t ∈ ts, t.isEmpty) : ∀ u ∈ mergeInto s ts, u.isEmpty := by
  induction ts generalizing s with
  | nil =>
    intro u hu
    rw [mergeInto, List.mem_singleton] at hu
    rwa [hu]
  | cons t ts ih =>
    obtain ⟨hle, ht⟩ := List.pairwise_cons.1 h
    obtain ⟨hempty, hts⟩ := List.forall_mem_cons.1 hts
    rw [mergeInto]
    split_ifs with hlt
    · exact List.forall_mem_cons.2 ⟨hs, ih ht hempty hts⟩
    · obtain ⟨hstart, hstop⟩ := rank_absorb (s := s) (t := t)
      have hst := hle t List.mem_cons_self
      rw [Position.lt_iff_rank_lt] at hlt
      rw [isEmpty_iff_rank_eq] at hs hempty
      refine ih (pairwise_absorb h) ?_ hts
      rw [isEmpty_iff_rank_eq]
      omega

/-- What holds of the ends of all selections holds of the ends of those they
merge into. -/
theorem ends_mergeInto {P : Position → Prop} {s : Selection} {ts : List Selection}
    (hs : P s.anchor ∧ P s.head) (hts : ∀ t ∈ ts, P t.anchor ∧ P t.head) :
    ∀ u ∈ mergeInto s ts, P u.anchor ∧ P u.head := by
  induction ts generalizing s with
  | nil =>
    intro u hu
    rw [mergeInto, List.mem_singleton] at hu
    rwa [hu]
  | cons t ts ih =>
    obtain ⟨ht, hts⟩ := List.forall_mem_cons.1 hts
    rw [mergeInto]
    split_ifs
    · exact List.forall_mem_cons.2 ⟨hs, ih ht hts⟩
    · exact ih (ends_absorb hs ht) hts

/-! ## Sorting -/

/-- Selections sorted by their starts start in order. -/
theorem pairwise_sortByStart (ss : List Selection) :
    (sortByStart ss).Pairwise fun s t => s.start.rank ≤ t.start.rank := by
  have h : (sortByStart ss).Pairwise fun s t => decide (s.start ≤ t.start) = true :=
    List.pairwise_mergeSort
      (fun s t u => by
        simp only [decide_eq_true_eq, Position.le_iff_rank_le]
        exact Nat.le_trans)
      (fun s t => by
        simp only [Bool.or_eq_true, decide_eq_true_eq, Position.le_iff_rank_le]
        exact Nat.le_total _ _) ss
  refine h.imp fun {s t} hst => ?_
  rwa [decide_eq_true_eq, Position.le_iff_rank_le] at hst

/-- The order by bounds is transitive. -/
theorem bounds_trans (s t u : Selection)
    (hst : decide (s.start < t.start ∨ s.start = t.start ∧ s.stop ≤ t.stop) = true)
    (htu : decide (t.start < u.start ∨ t.start = u.start ∧ t.stop ≤ u.stop) = true) :
    decide (s.start < u.start ∨ s.start = u.start ∧ s.stop ≤ u.stop) = true := by
  simp only [decide_eq_true_eq, Position.lt_iff_rank_lt, Position.le_iff_rank_le,
    ← Position.rank_inj] at hst htu ⊢
  omega

/-- The order by bounds is total. -/
theorem bounds_total (s t : Selection) :
    (decide (s.start < t.start ∨ s.start = t.start ∧ s.stop ≤ t.stop)
      || decide (t.start < s.start ∨ t.start = s.start ∧ t.stop ≤ s.stop)) = true := by
  simp only [Bool.or_eq_true, decide_eq_true_eq, Position.lt_iff_rank_lt, Position.le_iff_rank_le,
    ← Position.rank_inj]
  omega

/-- Selections sorted by their bounds start in order. -/
theorem pairwise_sortByBounds (ss : List Selection) :
    (sortByBounds ss).Pairwise fun s t => s.start.rank ≤ t.start.rank := by
  have h : (sortByBounds ss).Pairwise fun s t =>
      decide (s.start < t.start ∨ s.start = t.start ∧ s.stop ≤ t.stop) = true :=
    List.pairwise_mergeSort bounds_trans bounds_total ss
  refine h.imp fun {s t} hst => ?_
  simp only [decide_eq_true_eq, Position.lt_iff_rank_lt, ← Position.rank_inj] at hst
  omega

/-- Selections that start in order are sorted. -/
theorem sortByStart_of_pairwise {ss : List Selection}
    (h : ss.Pairwise fun s t => s.start.rank ≤ t.start.rank) : sortByStart ss = ss := by
  refine List.mergeSort_of_pairwise (h.imp fun hst => ?_)
  rw [decide_eq_true_eq, Position.le_iff_rank_le]
  exact hst

/-- Selections with gaps between them are sorted. -/
theorem sortByBounds_of_pairwise {ss : List Selection}
    (h : ss.Pairwise fun s t => s.stop.rank < t.start.rank) : sortByBounds ss = ss := by
  refine List.mergeSort_of_pairwise (h.imp fun {s t} hst => ?_)
  rw [decide_eq_true_eq, Position.lt_iff_rank_lt]
  exact .inl (s.start_le_stop.trans_lt hst)

theorem mem_sortByStart {s : Selection} {ss : List Selection} : s ∈ sortByStart ss ↔ s ∈ ss :=
  List.mem_mergeSort

/-! ## Normal form -/

/-- **Between two selections in normal form there is a gap.** -/
theorem pairwise_normalize (ss : List Selection) :
    (normalize ss).Pairwise fun s t => s.stop.rank < t.start.rank := by
  unfold normalize
  split
  · exact .nil
  · rename_i s rest hs
    exact pairwise_mergeInto (hs ▸ pairwise_sortByBounds ss)

/-- **What holds of the ends of all selections holds of the ends of their
normal form.** -/
theorem ends_normalize {P : Position → Prop} {ss : List Selection}
    (h : ∀ s ∈ ss, P s.anchor ∧ P s.head) : ∀ s ∈ normalize ss, P s.anchor ∧ P s.head := by
  have hsort : ∀ s ∈ sortByBounds ss, P s.anchor ∧ P s.head :=
    fun s hs => h s (List.mem_mergeSort.1 hs)
  unfold normalize
  split
  · exact fun s hs => absurd hs List.not_mem_nil
  · rename_i s rest hs
    rw [hs, List.forall_mem_cons] at hsort
    exact ends_mergeInto hsort.1 hsort.2

/-- **The normal form of cursors is cursors.** -/
theorem isEmpty_normalize {ss : List Selection} (h : ∀ s ∈ ss, s.isEmpty) :
    ∀ s ∈ normalize ss, s.isEmpty := by
  have hsort : ∀ s ∈ sortByBounds ss, s.isEmpty := fun s hs => h s (List.mem_mergeSort.1 hs)
  have hpairwise := pairwise_sortByBounds ss
  unfold normalize
  split
  · exact fun s hs => absurd hs List.not_mem_nil
  · rename_i s rest hs
    rw [hs] at hpairwise
    rw [hs, List.forall_mem_cons] at hsort
    exact isEmpty_mergeInto hpairwise hsort.1 hsort.2

/-- **Selections with gaps between them are in normal form.** -/
theorem normalize_of_pairwise {ss : List Selection}
    (h : ss.Pairwise fun s t => s.stop.rank < t.start.rank) : normalize ss = ss := by
  rw [normalize, sortByBounds_of_pairwise h]
  cases ss with
  | nil => rfl
  | cons s ss => exact mergeInto_of_pairwise h

end Selection

end EditorCore
