import EditorCore.Edit.Indent
import EditorCore.Proofs.Selection.Components

/-!
# Touched lines

The lines to indent are those that some selection touches (`mem_touchedLines`). They are
sorted and each comes once.

Merging selections can leave a line out that one of them touched: a cursor at the
start of a line touches it, and no longer does once it has become the end of a
selection from above. That is the only way (`Selection.touched_normalize`), and it
takes a selection that stops at the cursor.

So selections with gaps between them touch the same lines after their ends have
moved along their lines, even if they are merged then, as long as no end moves to
the start of a line or leaves the start of a line that was not touched
(`Selection.touched_normalize_map`).
-/

namespace EditorCore

/-! ## Touched lines -/

/-- Repetitions are erased one after the other. -/
theorem eraseReps_cons_cons {α : Type} [BEq α] (a b : α) (l : List α) :
    (a :: b :: l).eraseReps = if a == b then (a :: l).eraseReps else a :: (b :: l).eraseReps := by
  have hloop : ∀ (l acc : List α) (a : α), List.eraseRepsBy.loop (· == ·) a l acc
      = acc.reverse ++ List.eraseRepsBy.loop (· == ·) a l [] := by
    intro l
    induction l with
    | nil => intro acc a; simp [List.eraseRepsBy.loop]
    | cons b l ih =>
      intro acc a
      rw [List.eraseRepsBy.loop, List.eraseRepsBy.loop]
      split
      · exact ih acc a
      · rw [ih (a :: acc), ih [a]]
        simp
  show List.eraseRepsBy.loop (· == ·) a (b :: l) [] = _
  rw [List.eraseRepsBy.loop]
  split_ifs with h
  · rw [h]
    rfl
  · rw [Bool.eq_false_of_not_eq_true h]
    exact hloop l [a] b

/-- Erasing repetitions keeps what occurs. -/
theorem mem_eraseReps {α : Type} [BEq α] [LawfulBEq α] {a : α} {l : List α} :
    a ∈ l.eraseReps ↔ a ∈ l := by
  induction l with
  | nil => rfl
  | cons b l ih =>
    cases l with
    | nil => rfl
    | cons c l =>
      rw [eraseReps_cons_cons]
      split_ifs with h
      · obtain rfl := eq_of_beq h
        rw [ih, List.mem_cons (b := b) (l := b :: l), List.mem_cons, or_self_left]
      · rw [List.mem_cons, ih, List.mem_cons (b := b)]

/-- Erasing repetitions from numbers in order leaves each once. -/
theorem pairwise_eraseReps {l : List UInt32} (h : l.Pairwise fun a b => a.toNat ≤ b.toNat) :
    l.eraseReps.Pairwise fun a b => a.toNat < b.toNat := by
  induction l with
  | nil => exact .nil
  | cons a l ih =>
    obtain ⟨ha, hl⟩ := List.pairwise_cons.1 h
    cases l with
    | nil => exact List.pairwise_singleton _ a
    | cons b l =>
      rw [eraseReps_cons_cons]
      split_ifs with hab
      · obtain rfl := eq_of_beq hab
        exact ih hl
      · refine List.pairwise_cons.2 ⟨fun c hc => ?_, ih hl⟩
        have hle := ha b List.mem_cons_self
        have hne : a.toNat ≠ b.toNat := fun heq => hab (beq_iff_eq.2 (UInt32.toNat_inj.1 heq))
        rcases List.mem_cons.1 (mem_eraseReps.1 hc) with rfl | hc
        · omega
        · have := (List.pairwise_cons.1 hl).1 c hc
          omega

namespace Selection

/-- **A selection touches a line**: any of those it runs through, but for the last
one where it comes from above and stops in column 0. -/
def Touches (s : Selection) (i : Nat) : Prop :=
  s.start.line.toNat ≤ i ∧ i ≤ s.stop.line.toNat
    ∧ ¬(i = s.stop.line.toNat ∧ s.stop.column = 0 ∧ s.start.line < s.stop.line)

/-- Some selection touches a line. -/
def Touched (ss : List Selection) (i : Nat) : Prop := ∃ s ∈ ss, s.Touches i

instance (s : Selection) (i : Nat) : Decidable (s.Touches i) := inferInstanceAs (Decidable (_ ∧ _))

instance (ss : List Selection) (i : Nat) : Decidable (Touched ss i) :=
  inferInstanceAs (Decidable (∃ s ∈ ss, s.Touches i))

/-- Selections touch no line after the last one where one of them stops. -/
theorem Touched.lt {ss : List Selection} {i n : Nat} (h : Touched ss i)
    (hstops : ∀ s ∈ ss, s.stop.line.toNat < n) : i < n := by
  obtain ⟨s, hs, -, hle, -⟩ := h
  exact hle.trans_lt (hstops s hs)

/-- The touched lines have indices that are words. -/
theorem Touched.exists_toNat_eq {ss : List Selection} {i : Nat} (h : Touched ss i) :
    ∃ line : UInt32, line.toNat = i :=
  ⟨.ofNat i, UInt32.toNat_ofNat_of_lt' (h.lt fun s _ => s.stop.line.toNat_lt)⟩

theorem mem_lines {s : Selection} {line : UInt32} : line ∈ s.lines ↔ s.Touches line.toNat := by
  have hlast : line.toNat ≤ s.lastLine.toNat ↔ line.toNat ≤ s.stop.line.toNat
      ∧ ¬(line.toNat = s.stop.line.toNat ∧ s.stop.column = 0 ∧ s.start.line < s.stop.line) := by
    unfold lastLine
    split_ifs with hskip
    · have hlt := UInt32.lt_iff_toNat_lt.1 hskip.2
      have hone : (1 : UInt32).toNat = 1 := rfl
      rw [and_iff_left hskip, UInt32.toNat_sub_of_le _ _ (UInt32.le_iff_toNat_le.2 (by omega))]
      omega
    · exact (and_iff_left fun h => hskip h.2).symm
  have hmem : line ∈ s.lines ↔ s.firstLine.toNat ≤ line.toNat ∧ line.toNat ≤ s.lastLine.toNat := by
    have hword := s.lastLine.toNat_lt
    rw [lines, List.mem_map]
    constructor
    · rintro ⟨k, hk, rfl⟩
      rw [List.mem_range'_1] at hk
      rw [UInt32.toNat_ofNat_of_lt' (by show k < 2 ^ 32; omega)]
      omega
    · intro h
      exact ⟨line.toNat, List.mem_range'_1.2 (by omega), UInt32.ofNat_toNat⟩
  rw [hmem, hlast]
  rfl

end Selection

/-- **The touched lines** are those that some selection touches. -/
theorem mem_touchedLines {ss : List Selection} {line : UInt32} :
    line ∈ touchedLines ss ↔ Selection.Touched ss line.toNat := by
  rw [touchedLines, mem_eraseReps, List.mem_mergeSort, List.mem_flatMap]
  exact exists_congr fun s => and_congr_right fun _ => Selection.mem_lines

/-- **Lines are touched in order, each once.** -/
theorem pairwise_touchedLines (ss : List Selection) :
    (touchedLines ss).Pairwise fun l m => l.toNat < m.toNat := by
  refine pairwise_eraseReps ?_
  have h : ((ss.flatMap (·.lines)).mergeSort (· ≤ ·)).Pairwise
      fun a b => decide (a ≤ b) = true :=
    List.pairwise_mergeSort
      (fun a b c => by
        simp only [decide_eq_true_eq]
        exact UInt32.le_trans)
      (fun a b => by
        simp only [Bool.or_eq_true, decide_eq_true_eq]
        exact UInt32.le_total a b) _
  refine h.imp fun {a b} hab => ?_
  rwa [decide_eq_true_eq, UInt32.le_iff_toNat_le] at hab

namespace Selection

variable {s t : Selection} {ss ts : List Selection} {i : Nat}

/-! ## Merging -/

/-- No selection from above stops at a cursor in column 0 of a line. -/
def CursorsApart (ss : List Selection) (i : Nat) : Prop :=
  ∀ u ∈ ss, ∀ v ∈ ss, u.start.rank = i * 2 ^ 32 → u.stop.rank = i * 2 ^ 32 →
    v.stop.rank = i * 2 ^ 32 → v.start.rank = i * 2 ^ 32

/-- **A selection touches a line** when it starts before the end of the line and stops
past the start of it, or right there if that is where it starts as well. -/
theorem touches_iff_rank : s.Touches i ↔ s.start.rank < (i + 1) * 2 ^ 32
    ∧ (i * 2 ^ 32 < s.stop.rank ∨ i * 2 ^ 32 = s.stop.rank ∧ i * 2 ^ 32 ≤ s.start.rank) := by
  have hstart := s.start.column.toNat_lt
  have hstop := s.stop.column.toNat_lt
  have hle := s.start_le_stop
  have hzero : s.stop.column = 0 ↔ s.stop.column.toNat = 0 := UInt32.toNat_inj.symm
  rw [Touches, UInt32.lt_iff_toNat_lt, hzero]
  unfold Position.rank at *
  omega

theorem touched_cons : Touched (s :: ss) i ↔ s.Touches i ∨ Touched ss i := by simp [Touched]

theorem touched_congr (h : ∀ s, s ∈ ss ↔ s ∈ ts) : Touched ss i ↔ Touched ts i :=
  exists_congr fun s => and_congr_left' (h s)

/-- **Two selections that meet touch the same lines as one**, unless the second is a
cursor in column 0 where the first stops. -/
theorem touches_absorb (hst : s.start.rank ≤ t.start.rank) (hmeets : t.start.rank ≤ s.stop.rank)
    (hapart : CursorsApart [s, t] i) : (absorb s t).Touches i ↔ s.Touches i ∨ t.Touches i := by
  have hs := s.start_le_stop
  have ht := t.start_le_stop
  have hcursor := hapart t (by simp) s (by simp)
  rw [touches_iff_rank, touches_iff_rank, touches_iff_rank, rank_absorb.1, rank_absorb.2]
  omega

/-- What a selection absorbs leaves the cursors apart. -/
theorem CursorsApart.absorb (h : CursorsApart (s :: t :: ts) i)
    (hst : s.start.rank ≤ t.start.rank) (hmeets : t.start.rank ≤ s.stop.rank)
    (hts : ∀ u ∈ ts, t.start.rank ≤ u.start.rank) : CursorsApart (absorb s t :: ts) i := by
  have hs := s.start_le_stop
  have ht := t.start_le_stop
  have hsmem : s ∈ s :: t :: ts := by simp
  have htmem : t ∈ s :: t :: ts := by simp
  have hmem : ∀ {u}, u ∈ ts → u ∈ s :: t :: ts := fun hu => by simp [hu]
  obtain ⟨hstart, hstop⟩ := rank_absorb (s := s) (t := t)
  intro u hu v hv
  rcases List.mem_cons.1 hu with rfl | hu <;> rcases List.mem_cons.1 hv with rfl | hv
  · exact fun hstart _ _ => hstart
  · -- `s` is a cursor there itself
    have hv := h s hsmem v (hmem hv)
    omega
  · have hus := h u (hmem hu) s hsmem
    have hut := h u (hmem hu) t htmem
    have hle := hts u hu
    omega
  · exact h u (hmem hu) v (hmem hv)

/-- **Merging keeps the touched lines**, where no selection from above stops at a
cursor in column 0. -/
theorem touched_mergeInto
    (hsorted : (s :: ts).Pairwise fun s t => s.start.rank ≤ t.start.rank)
    (hapart : CursorsApart (s :: ts) i) :
    Touched (mergeInto s ts) i ↔ s.Touches i ∨ Touched ts i := by
  induction ts generalizing s with
  | nil => exact touched_cons
  | cons t ts ih =>
    obtain ⟨hs, ht⟩ := List.pairwise_cons.1 hsorted
    have hst := hs t List.mem_cons_self
    rw [mergeInto, touched_cons]
    split_ifs with hgap
    · rw [touched_cons, ih ht fun u hu v hv =>
        hapart u (List.mem_cons_of_mem s hu) v (List.mem_cons_of_mem s hv)]
    · rw [Position.lt_iff_rank_lt, Nat.not_lt] at hgap
      have hpair : CursorsApart [s, t] i := fun u hu v hv =>
        hapart u (List.mem_of_mem_take (i := 2) hu) v (List.mem_of_mem_take (i := 2) hv)
      rw [ih (pairwise_absorb hsorted) (hapart.absorb hst hgap (List.pairwise_cons.1 ht).1),
        touches_absorb hst hgap hpair, or_assoc]

/-- **The normal form touches the same lines**, where no selection from above stops at
a cursor in column 0. -/
theorem touched_normalize (hapart : CursorsApart ss i) :
    Touched (normalize ss) i ↔ Touched ss i := by
  have hmem : ∀ s, s ∈ sortByBounds ss ↔ s ∈ ss := fun s => List.mem_mergeSort
  have hsorted := pairwise_sortByBounds ss
  rw [← touched_congr hmem]
  unfold normalize
  split
  · rename_i hnil
    rw [hnil]
  · rename_i s rest hrest
    rw [hrest] at hsorted hmem ⊢
    rw [touched_cons]
    exact touched_mergeInto hsorted fun u hu v hv =>
      hapart u ((hmem u).1 hu) v ((hmem v).1 hv)

/-! ## Moving along the lines -/

/-- A selection with its ends moved. -/
def mapEnds (f : Position → Position) (s : Selection) : Selection := ⟨f s.anchor, f s.head⟩

variable {f : Position → Position}

/-- The bounds move with the ends, or are all on one line. -/
theorem bounds_mapEnds (hline : ∀ p, (f p).line = p.line) (s : Selection) :
    (s.mapEnds f).start = f s.start ∧ (s.mapEnds f).stop = f s.stop
      ∨ s.start.line = s.stop.line ∧ (s.mapEnds f).start.line = s.stop.line
        ∧ (s.mapEnds f).stop.line = s.stop.line := by
  have hle : ∀ p q : Position, p ≤ q ↔ p.line < q.line ∨ p.line = q.line ∧ p.column ≤ q.column :=
    fun _ _ => Iff.rfl
  have hbounds : ∀ u : Selection, u.start = (if u.anchor ≤ u.head then u.anchor else u.head)
      ∧ u.stop = if u.anchor ≤ u.head then u.head else u.anchor := fun _ => ⟨rfl, rfl⟩
  rw [(hbounds s).1, (hbounds s).2, (hbounds (s.mapEnds f)).1, (hbounds (s.mapEnds f)).2]
  by_cases heq : s.anchor.line = s.head.line
  · right
    unfold mapEnds
    split_ifs <;> simp [hline, heq]
  · left
    have hiff : f s.anchor ≤ f s.head ↔ s.anchor ≤ s.head := by
      rw [hle, hle, hline, hline]
      simp [heq]
    unfold mapEnds
    simp only [hiff]
    split_ifs <;> exact ⟨rfl, rfl⟩

/-- A selection touches the same lines after its ends have moved, but for the last
one where it stopped in column 0 and no longer does. -/
theorem touches_mapEnds (hline : ∀ p, (f p).line = p.line)
    (hzero : (f s.stop).column = 0 → f s.stop = s.stop) :
    (s.Touches i → (s.mapEnds f).Touches i)
      ∧ ((s.mapEnds f).Touches i → s.Touches i ∨ i = s.stop.line.toNat ∧ f s.stop ≠ s.stop) := by
  unfold Touches
  rcases bounds_mapEnds hline s with ⟨hstart, hstop⟩ | ⟨hlines, hstart, hstop⟩
  · rw [hstart, hstop, hline, hline]
    refine ⟨fun ⟨hfirst, hlast, hskip⟩ => ⟨hfirst, hlast, fun ⟨hi, hcolumn, hlt⟩ => ?_⟩,
      fun ⟨hfirst, hlast, hskip⟩ => ?_⟩
    · rw [hzero hcolumn] at hcolumn
      exact hskip ⟨hi, hcolumn, hlt⟩
    · by_cases hmoved : f s.stop = s.stop
      · rw [hmoved] at hskip
        exact .inl ⟨hfirst, hlast, hskip⟩
      · by_cases hi : i = s.stop.line.toNat
        · exact .inr ⟨hi, hmoved⟩
        · exact .inl ⟨hfirst, hlast, fun h => hi h.1⟩
  · rw [hstart, hstop, hlines]
    simp only [UInt32.lt_irrefl, and_false]
    exact ⟨id, .inl⟩

/-- **The touched lines stay the same** when the ends of selections with gaps between
them move along their lines, even if that closes gaps. No end may move to column 0, and
only those on touched lines may move at all. -/
theorem touched_normalize_map (hgaps : ss.Pairwise fun s t => s.stop.rank < t.start.rank)
    (hline : ∀ p, (f p).line = p.line)
    (hzero : ∀ s ∈ ss, ((f s.anchor).column = 0 → f s.anchor = s.anchor)
      ∧ ((f s.head).column = 0 → f s.head = s.head))
    (hmoved : ∀ p, f p ≠ p → Touched ss p.line.toNat) :
    Touched (normalize (ss.map (mapEnds f))) i ↔ Touched ss i := by
  -- where a bound is in column 0 of a line, an end was there before
  have hholds : ∀ (s : Selection) p, ((f p).column = 0 → f p = p) → p = s.anchor ∨ p = s.head →
      (f p).rank = i * 2 ^ 32 → s.start.rank ≤ i * 2 ^ 32 ∧ i * 2 ^ 32 ≤ s.stop.rank := by
    intro s p hp hend hrank
    have hword := (f p).column.toNat_lt
    have hcolumn : (f p).column = 0 := by
      rw [← UInt32.toNat_inj]
      unfold Position.rank at hrank
      show _ = 0
      omega
    rw [hp hcolumn] at hrank
    rw [start, stop, Position.rank_min, Position.rank_max]
    rcases hend with rfl | rfl <;> omega
  have hbounds : ∀ s ∈ ss,
      ((s.mapEnds f).start.rank = i * 2 ^ 32 →
        s.start.rank ≤ i * 2 ^ 32 ∧ i * 2 ^ 32 ≤ s.stop.rank)
      ∧ ((s.mapEnds f).stop.rank = i * 2 ^ 32 →
        s.start.rank ≤ i * 2 ^ 32 ∧ i * 2 ^ 32 ≤ s.stop.rank) := fun s hs =>
    bounds_of_ends (s := s.mapEnds f)
      (P := fun q => q.rank = i * 2 ^ 32 → s.start.rank ≤ i * 2 ^ 32 ∧ i * 2 ^ 32 ≤ s.stop.rank)
      ⟨hholds s _ (hzero s hs).1 (.inl rfl), hholds s _ (hzero s hs).2 (.inr rfl)⟩
  have hapart : CursorsApart (ss.map (mapEnds f)) i := by
    intro u hu v hv hstart _ hstop
    obtain ⟨s, hs, rfl⟩ := List.mem_map.1 hu
    obtain ⟨t, ht, rfl⟩ := List.mem_map.1 hv
    suffices hst : s = t from hst ▸ hstart
    by_contra hne
    have hgap := gap_of_ne ((normalize_of_pairwise hgaps).symm ▸ hs)
      ((normalize_of_pairwise hgaps).symm ▸ ht) hne
    have hs := (hbounds s hs).1 hstart
    have ht := (hbounds t ht).2 hstop
    omega
  have htouches := fun s hs => touches_mapEnds (s := s) (i := i) hline
    (bounds_of_ends (P := fun p => (f p).column = 0 → f p = p) (hzero s hs)).2
  rw [touched_normalize hapart]
  constructor
  · rintro ⟨_, hu, hmapped⟩
    obtain ⟨s, hs, rfl⟩ := List.mem_map.1 hu
    rcases (htouches s hs).2 hmapped with hs' | ⟨rfl, hne⟩
    · exact ⟨s, hs, hs'⟩
    · exact hmoved _ hne
  · rintro ⟨s, hs, hs'⟩
    exact ⟨_, List.mem_map_of_mem hs, (htouches s hs).1 hs'⟩

end Selection

end EditorCore
