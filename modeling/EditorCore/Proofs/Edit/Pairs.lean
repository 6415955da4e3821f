import EditorCore.Edit.Pairs
import EditorCore.Proofs.Edit.Tracks

/-!
# Pairs are edited in order, and cursors follow

The commands for brackets and quotes sort what they are given, so what they
plan is in ascending order. Wrapping needs more than that: a closing
character goes where a selection stops, so the next one has to start later,
as it does in normal form.

Insertions move a cursor to the right by what was inserted before it on its
line, and never past the end of the line, which moves by all that is
inserted there. Removals move it to the left. There every removed pair has a
cursor, which stands where the pair was; so where a removed pair ended its
line, a cursor now does (`tracks_backspace`).
-/

namespace EditorCore

open TextEdit

variable {source : TokenSource} {t : Text} {ss : List Selection} {plan : EditPlan}
  {opening closing : Char}

/-! ## Stepping over -/

/-- **Cursors that step over a character** stay on their lines. -/
theorem tracks_closePair (hsource : ∀ line, source.lineText line = t.line line.toNat)
    (hclosing : units closing = 1)
    (hss : ∀ s ∈ ss, t.Reach [] s.anchor ∧ t.Reach [] s.head)
    (h : closePair source ss closing = .edit plan) :
    plan.Tracks t ∧ plan.KeepsEndings t := by
  unfold closePair at h
  split_ifs at h with hover
  obtain rfl := KeyOutcome.edit.inj h
  refine ⟨⟨⟨nofun, .nil⟩, nofun, fun q hq => ?_⟩, fun i hreturn => hreturn⟩
  obtain ⟨s, hs, rfl⟩ := List.mem_map.1 hq
  rw [Selection.mem_sortByStart] at hs
  have hchar := (hover.2 s hs).2
  rw [TokenSource.charAfter, hsource] at hchar
  have hlt := Text.lt_width_of_charAfter hchar
  have hcolumn := toNat_add_le s.head.column (columnWidth closing)
  rw [toNat_columnWidth, hclosing] at hcolumn
  have hreach : t.Reach [] ⟨s.head.line, s.head.column + columnWidth closing⟩ :=
    ⟨(hss s hs).2.1, hcolumn.trans hlt⟩
  exact ⟨hreach, hreach⟩

/-! ## Inserting -/

/-- Insertions at positions in order. -/
theorem ascending_map_insert {ps : List Position} (h : ps.Pairwise fun p q => p.rank ≤ q.rank)
    (text : Text) : Ascending (ps.map (TextEdit.insert · text)) where
  start_le_stop e he := by
    obtain ⟨p, -, rfl⟩ := List.mem_map.1 he
    exact Nat.le_refl _
  pairwise := List.pairwise_map.2 h

/-- The heads of cursors sorted by their starts are in order. -/
theorem pairwise_heads {ss : List Selection} (h : ∀ s ∈ ss, s.isEmpty) :
    ((Selection.sortByStart ss).map (·.head)).Pairwise fun p q => p.rank ≤ q.rank := by
  refine List.pairwise_map.2 ((Selection.pairwise_sortByStart ss).imp_of_mem ?_)
  intro s t hs ht hst
  rwa [Selection.start_eq_head_of_isEmpty (h s (Selection.mem_sortByStart.1 hs)),
    Selection.start_eq_head_of_isEmpty (h t (Selection.mem_sortByStart.1 ht))] at hst

/-- **Pairs are inserted in order.** -/
theorem ascending_insertPairs {ss : List Selection} (h : ∀ s ∈ ss, s.isEmpty)
    (opening closing : Char) : Ascending (insertPairs ss opening closing).edits :=
  ascending_map_insert (pairwise_heads h) _

/-- **Selections are wrapped in order** when each stops before the next one
starts. -/
theorem ascending_surround {ss : List Selection}
    (h : ss.Pairwise fun s t => s.stop.rank ≤ t.start.rank) (opening closing : Char) :
    Ascending (surround ss opening closing).edits := by
  have hsort : Selection.sortByStart ss = ss :=
    Selection.sortByStart_of_pairwise (h.imp fun {s _} hst => s.start_le_stop.trans hst)
  have hedits : (surround ss opening closing).edits
      = ss.flatMap fun s => [.insert s.start [opening], .insert s.stop [closing]] :=
    congrArg (List.flatMap _) hsort
  rw [hedits]
  refine ⟨fun e he => ?_, List.pairwise_flatMap.2 ⟨fun s _ => ?_, h.imp fun {s t} hst => ?_⟩⟩
  · obtain ⟨s, -, he⟩ := List.mem_flatMap.1 he
    simp only [List.mem_cons, List.not_mem_nil, or_false] at he
    rcases he with rfl | rfl <;> exact Nat.le_refl _
  · exact List.pairwise_pair.2 s.start_le_stop
  · -- each of the two edits of `s` stops within `s`, and each of `t` starts within `t`
    have hs := s.start_le_stop
    have ht := t.start_le_stop
    simp only [List.mem_cons, List.not_mem_nil, or_false, TextEdit.insert]
    rintro e (rfl | rfl) f (rfl | rfl) <;> dsimp only <;> omega

/-- **Cursors inside inserted pairs** are no further than the pairs account
for. -/
theorem ahead_pairCursors {log : ShiftLog} {ps : List Position} :
    ∀ s ∈ pairCursors opening closing log ps, ∃ p ∈ ps, ∃ q, s = .cursor q
      ∧ Position.Ahead log (ps.map (insert · [opening, closing])) p q := by
  induction ps generalizing log with
  | nil => exact nofun
  | cons p ps ih =>
    have hwidth : (insert p [opening, closing]).newText.width
        = (columnWidth opening + columnWidth closing).toNat := by
      have hopening := units_le_two opening
      have hclosing := units_le_two closing
      rw [UInt32.toNat_add, toNat_columnWidth, toNat_columnWidth, Nat.mod_eq_of_lt (by omega)]
      rfl
    rw [pairCursors]
    -- the later cursors are told with this pair in the log
    refine List.forall_mem_cons.2 ⟨⟨p, List.mem_cons_self, _, rfl, rfl, ?_⟩, fun s hs => ?_⟩
    · have hlog := log.toNat_on_le p.line
      have hsum := toNat_add_le (p.column + log.on p.line) (columnWidth opening)
      have hcolumn := toNat_add_le p.column (log.on p.line)
      have hinserted := sumOn_cons_self (fun e => e.newText.width)
        (insert p [opening, closing]) (ps.map (insert · [opening, closing]))
      rw [toNat_columnWidth] at hsum
      change _ = (units opening + (units closing + 0)) + _ at hinserted
      change inserted p.line.toNat _ = _ at hinserted
      rw [List.map_cons, hinserted]
      dsimp only
      omega
    · obtain ⟨q, hq, r, rfl, hahead⟩ := ih s hs
      exact ⟨q, List.mem_cons_of_mem p hq, r, rfl, (Position.ahead_cons hwidth).1 hahead⟩

/-- What insertions of plain characters do to the endings of lines: nothing. -/
theorem not_exposed_of_insert {es : List TextEdit} {i : Nat}
    (hes : ∀ e ∈ es, '\r' ∉ e.newText ∧ e.newText ≠ [])
    (hreturn : (t.edited i es).getLast? = some '\r') :
    (t.segment i).getLast? = some '\r' :=
  Text.getLast?_segment_of_edited (fun e he => ⟨(hes e he).1, .inl (hes e he).2⟩) hreturn

/-- **Pairs are inserted with the cursors inside them.** -/
theorem tracks_insertPairs (hplain : ∀ c ∈ [opening, closing], c ≠ '\n' ∧ c ≠ '\r')
    (hempty : ∀ s ∈ ss, s.isEmpty)
    (hss : ∀ s ∈ ss, t.Reach [] s.anchor ∧ t.Reach [] s.head) :
    (insertPairs ss opening closing).Tracks t
      ∧ (insertPairs ss opening closing).KeepsEndings t := by
  have hheads : ∀ p ∈ (Selection.sortByStart ss).map (·.head), t.Reach [] p := by
    intro p hp
    obtain ⟨s, hs, rfl⟩ := List.mem_map.1 hp
    exact (hss s (Selection.mem_sortByStart.1 hs)).2
  have hedits : ∀ e ∈ (insertPairs ss opening closing).edits, ∃ p, t.Reach [] p
      ∧ e = insert p [opening, closing] := by
    intro e he
    obtain ⟨p, hp, rfl⟩ := List.mem_map.1 he
    exact ⟨p, hheads p hp, rfl⟩
  refine ⟨⟨ascending_insertPairs hempty opening closing, fun e he => ?_, fun s hs => ?_⟩,
    fun i hreturn => ?_⟩
  · obtain ⟨p, hp, rfl⟩ := hedits e he
    exact within_insert hp.line_lt fun hmem => (hplain _ hmem).1 rfl
  · obtain ⟨p, hp, q, rfl, hahead⟩ := ahead_pairCursors s hs
    have hreach := hahead.reach (hheads p hp) fun e he => by
      obtain ⟨p, -, rfl⟩ := hedits e he
      rfl
    exact ⟨hreach, hreach⟩
  · refine not_exposed_of_insert (fun e he => ?_) hreturn
    obtain ⟨p, -, rfl⟩ := hedits e he
    exact ⟨fun hmem => (hplain _ hmem).2 rfl, List.cons_ne_nil _ _⟩

/-- The two edits that wrap a selection. -/
def wrapEdits (opening closing : Char) (s : Selection) : List TextEdit :=
  [insert s.start [opening], insert s.stop [closing]]

/-- **The ends of a wrapped selection** are no further than the wrapping
accounts for. -/
theorem ahead_wrapped {log : ShiftLog} {ss : List Selection} :
    ∀ r ∈ wrapped opening closing log ss, ∃ s ∈ ss, ∃ start stop,
      r = s.withBounds start stop
        ∧ Position.Ahead log (ss.flatMap (wrapEdits opening closing)) s.start start
        ∧ Position.Ahead log (ss.flatMap (wrapEdits opening closing)) s.stop stop := by
  induction ss generalizing log with
  | nil => exact nofun
  | cons s ss ih =>
    have hopening : (insert s.start [opening]).newText.width = (columnWidth opening).toNat :=
      (toNat_columnWidth opening).symm
    have hclosing : (insert s.stop [closing]).newText.width = (columnWidth closing).toNat :=
      (toNat_columnWidth closing).symm
    -- an end moves by what is logged after the opening character is
    have hend : ∀ p : Position, Position.Ahead log ((s :: ss).flatMap (wrapEdits opening closing)) p
        ⟨p.line, p.column + ShiftLog.on ((s.start.line, columnWidth opening) :: log) p.line⟩ := by
      intro p
      refine (Position.ahead_cons hopening).1 ⟨rfl, ?_⟩
      have hsum := toNat_add_le p.column
        (ShiftLog.on ((s.start.line, columnWidth opening) :: log) p.line)
      have hlog := ShiftLog.toNat_on_le ((s.start.line, columnWidth opening) :: log) p.line
      exact hsum.trans (Nat.add_le_add_left (hlog.trans (Nat.le_add_right _ _)) _)
    rw [wrapped]
    refine List.forall_mem_cons.2
      ⟨⟨s, List.mem_cons_self, _, _, rfl, hend s.start, hend s.stop⟩, fun r hr => ?_⟩
    obtain ⟨s', hs', start, stop, rfl, hstart, hstop⟩ := ih r hr
    exact ⟨s', List.mem_cons_of_mem s hs', start, stop, rfl,
      (Position.ahead_cons hopening).1 ((Position.ahead_cons hclosing).1 hstart),
      (Position.ahead_cons hopening).1 ((Position.ahead_cons hclosing).1 hstop)⟩

/-- **Selections are wrapped with the text still selected.** -/
theorem tracks_surround (hplain : ∀ c ∈ [opening, closing], c ≠ '\n' ∧ c ≠ '\r')
    (hgaps : ss.Pairwise fun s t => s.stop.rank ≤ t.start.rank)
    (hss : ∀ s ∈ ss, t.Reach [] s.anchor ∧ t.Reach [] s.head) :
    (surround ss opening closing).Tracks t
      ∧ (surround ss opening closing).KeepsEndings t := by
  have hbounds : ∀ s ∈ Selection.sortByStart ss, t.Reach [] s.start ∧ t.Reach [] s.stop :=
    fun s hs => Selection.bounds_of_ends (hss s (Selection.mem_sortByStart.1 hs))
  have hedits : ∀ e ∈ (surround ss opening closing).edits, ∃ p c, t.Reach [] p
      ∧ c ∈ [opening, closing] ∧ e = insert p [c] := by
    intro e he
    obtain ⟨s, hs, he⟩ := List.mem_flatMap.1 he
    simp only [List.mem_cons, List.not_mem_nil, or_false] at he
    rcases he with rfl | rfl
    · exact ⟨_, opening, (hbounds s hs).1, List.mem_cons_self, rfl⟩
    · exact ⟨_, closing, (hbounds s hs).2, List.mem_cons_of_mem _ List.mem_cons_self, rfl⟩
  refine ⟨⟨ascending_surround hgaps opening closing, fun e he => ?_, fun r hr => ?_⟩,
    fun i hreturn => ?_⟩
  · obtain ⟨p, c, hp, hc, rfl⟩ := hedits e he
    refine within_insert hp.line_lt fun hmem => (hplain c hc).1 ?_
    exact (List.mem_singleton.1 hmem).symm
  · obtain ⟨s, hs, start, stop, rfl, hstart, hstop⟩ := ahead_wrapped r hr
    have hinsert : ∀ e ∈ (surround ss opening closing).edits, e.stop = e.start := by
      intro e he
      obtain ⟨p, c, -, -, rfl⟩ := hedits e he
      rfl
    exact Selection.ends_withBounds s (hstart.reach (hbounds s hs).1 hinsert)
      (hstop.reach (hbounds s hs).2 hinsert)
  · refine not_exposed_of_insert (fun e he => ?_) hreturn
    obtain ⟨p, c, -, hc, rfl⟩ := hedits e he
    refine ⟨fun hmem => (hplain c hc).2 ?_, List.cons_ne_nil _ _⟩
    exact (List.mem_singleton.1 hmem).symm

/-! ## Removing -/

/-- **Inside an empty pair** there is one of the pairs around the position,
in the two columns next to it. -/
theorem TokenSource.exists_of_inEmptyPair {source : TokenSource} {p : Position}
    (h : source.inEmptyPair p) :
    ∃ x y pre post, [x, y] ∈ emptyPairs ∧ units x = 1 ∧ units y = 1
      ∧ source.lineText p.line = pre ++ x :: y :: post
      ∧ (p.column - 1).toNat = pre.width
      ∧ p.column.toNat = pre.width + 1
      ∧ (p.column + 1).toNat = pre.width + 2 := by
  simp only [TokenSource.inEmptyPair, Bool.and_eq_true, decide_eq_true_eq,
    List.contains_iff_mem] at h
  obtain ⟨hne, hmem⟩ := h
  obtain ⟨x, y, hxy, hx, hy⟩ : ∃ x y, (source.lineText p.line).slice (p.column - 1).toNat
      (p.column + 1).toNat = [x, y] ∧ units x = 1 ∧ units y = 1 := by
    simp only [emptyPairs, List.mem_cons, List.not_mem_nil, or_false] at hmem
    rcases hmem with h | h | h | h | h <;> exact ⟨_, _, h, rfl, rfl⟩
  rw [hxy] at hmem
  obtain ⟨pre, post, hline, hstart, hstop⟩ := Text.exists_of_slice_eq_pair hxy hx
  have hpos : 1 ≤ p.column := by
    rw [UInt32.le_iff_toNat_le]
    exact Nat.pos_of_ne_zero fun hzero => hne (UInt32.toNat_inj.1 hzero)
  have hsub := UInt32.toNat_sub_of_le _ _ hpos
  have hadd := UInt32.toNat_add p.column 1
  rw [UInt32.le_iff_toNat_le] at hpos
  have hone : (1 : UInt32).toNat = 1 := rfl
  have hmod := Nat.mod_le (p.column.toNat + 1) (2 ^ 32)
  exact ⟨x, y, pre, post, hmem, hx, hy, hline, hstart.symm, by omega, by omega⟩

/-- The edit that removes the pair around a position. -/
def removePair (p : Position) : TextEdit :=
  .delete ⟨p.line, p.column - 1⟩ ⟨p.line, p.column + 1⟩

/-- The pairs that are removed are among those found. -/
theorem mem_of_mem_keptPairs {last : Option Position} {ps : List Position} {p : Position}
    (hp : p ∈ keptPairs last ps) : p ∈ ps := by
  induction ps generalizing last with
  | nil => exact hp
  | cons q ps ih =>
    rw [keptPairs] at hp
    split_ifs at hp
    · exact List.mem_cons_of_mem q (ih hp)
    · rcases List.mem_cons.1 hp with rfl | hp
      · exact List.mem_cons_self
      · exact List.mem_cons_of_mem q (ih hp)

/-- No pair is removed that starts before the last one removed stops. -/
theorem le_of_mem_keptPairs {stop : Position} {ps : List Position}
    (h : ∀ p ∈ ps, (removePair p).start.rank ≤ (removePair p).stop.rank) {p : Position}
    (hp : p ∈ keptPairs (some stop) ps) : stop.rank ≤ (removePair p).start.rank := by
  induction ps generalizing stop with
  | nil => exact absurd hp List.not_mem_nil
  | cons q ps ih =>
    obtain ⟨hq, hps⟩ := List.forall_mem_cons.1 h
    rw [keptPairs] at hp
    split_ifs at hp with hlt
    · exact ih hps hp
    · rw [Option.any_some, decide_eq_true_eq, Position.lt_iff_rank_lt, Nat.not_lt] at hlt
      rcases List.mem_cons.1 hp with rfl | hp
      · exact hlt
      · exact hlt.trans (hq.trans (ih hps hp))

/-- **Pairs are removed in order**, whatever order they are found in. -/
theorem ascending_keptPairs {last : Option Position} {ps : List Position}
    (h : ∀ p ∈ ps, (removePair p).start.rank ≤ (removePair p).stop.rank) :
    Ascending ((keptPairs last ps).map removePair) where
  start_le_stop e he := by
    obtain ⟨p, hp, rfl⟩ := List.mem_map.1 he
    exact h p (mem_of_mem_keptPairs hp)
  pairwise := by
    rw [List.pairwise_map]
    induction ps generalizing last with
    | nil => exact .nil
    | cons q ps ih =>
      obtain ⟨hq, hps⟩ := List.forall_mem_cons.1 h
      rw [keptPairs]
      split_ifs
      · exact ih hps
      · exact List.pairwise_cons.2 ⟨fun p hp => le_of_mem_keptPairs hps hp, ih hps⟩

/-- The pair around a position inside an empty pair starts before it
stops. -/
theorem start_le_stop_removePair {source : TokenSource} {p : Position}
    (h : source.inEmptyPair p) : (removePair p).start.rank ≤ (removePair p).stop.rank := by
  obtain ⟨x, y, pre, post, -, -, -, -, hstart, -, hstop⟩ := TokenSource.exists_of_inEmptyPair h
  show p.line.toNat * 2 ^ 32 + (p.column - 1).toNat
    ≤ p.line.toNat * 2 ^ 32 + (p.column + 1).toNat
  omega

/-- **Edits in order take no more from a line than there is of it**, from the
column where the first of them may start. -/
theorem add_removed_le {es : List TextEdit} (h : Ascending es) (hline : SameLine es)
    {i column width : Nat} (hcolumn : column ≤ width)
    (hstart : ∀ e ∈ es, e.start.line.toNat = i → column ≤ e.start.column.toNat)
    (hstop : ∀ e ∈ es, e.start.line.toNat = i → e.stop.column.toNat ≤ width) :
    column + removed i es ≤ width := by
  induction es generalizing column with
  | nil => exact hcolumn
  | cons e es ih =>
    obtain ⟨hestart, hesstart⟩ := List.forall_mem_cons.1 hstart
    obtain ⟨hestop, hesstop⟩ := List.forall_mem_cons.1 hstop
    by_cases hi : e.start.line.toNat = i
    · have hrest := ih h.tail hline.tail (hestop hi) (fun f hf hf' => ?_) hesstop
      · have hle := hestart hi
        have hbounds := Position.column_le_of_rank_le (hline e List.mem_cons_self).symm
          (h.start_le_stop e List.mem_cons_self)
        subst hi
        rw [removed, sumOn_cons_self, ← removed]
        omega
      · refine Position.column_le_of_rank_le ?_ ((List.pairwise_cons.1 h.pairwise).1 f hf)
        rw [hline e List.mem_cons_self, ← UInt32.toNat_inj, hi, hf']
    · rw [removed, sumOn_cons_of_ne _ hi]
      exact ih h.tail hline.tail hcolumn hesstart hesstop

/-- **A pair around a position**: the columns next to it, within a line. -/
structure Text.PairAt (t : Text) (p : Position) : Prop where
  line_lt : p.line < .ofNat t.segments.length
  start : (removePair p).start.column.toNat + 1 = p.column.toNat
  stop : (removePair p).stop.column.toNat = p.column.toNat + 1
  within : (removePair p).Within t
  le_width : p.column.toNat + 1 ≤ (t.line p.line.toNat).width

/-- **A cursor is where a pair was**: moved back by all that is removed from
its line, it would be past the pair and within the line. -/
def Text.CursorFor (t : Text) (log : ShiftLog) (es : List TextEdit) (p : Position)
    (s : Selection) : Prop :=
  ∃ q, s = .cursor q ∧ q.line = p.line
    ∧ p.column.toNat + 1 ≤ q.column.toNat + (log.total p.line + removed p.line.toNat es)
    ∧ q.column.toNat + (log.total p.line + removed p.line.toNat es)
      ≤ (t.line p.line.toNat).width

theorem sameLine_removePair (ps : List Position) : SameLine (ps.map removePair) := by
  intro e he
  obtain ⟨p, -, rfl⟩ := List.mem_map.1 he
  rfl

/-- What is logged of a pair no longer counts as planned. -/
theorem cursorFor_cons {log : ShiftLog} {es : List TextEdit} {p r : Position} {s : Selection}
    (hr : t.PairAt r) :
    t.CursorFor ((r.line, 2) :: log) es p s ↔ t.CursorFor log (removePair r :: es) p s := by
  have hsize : (removePair r).stop.column.toNat - (removePair r).start.column.toNat
      = (2 : UInt32).toNat := by
    have hstart := hr.start
    have hstop := hr.stop
    show _ = 2
    omega
  have hsum := ShiftLog.total_cons_add_sumOn
    (fun e => e.stop.column.toNat - e.start.column.toNat) hsize log es p.line
  unfold Text.CursorFor removed
  rw [← hsum]
  rfl

/-- On one line, a pair stops before the next one starts. -/
theorem stop_le_start_removePair {p q : Position} {ps : List Position}
    (h : Ascending ((p :: ps).map removePair)) (hq : q ∈ ps) (hline : p.line = q.line) :
    (removePair p).stop.column.toNat ≤ (removePair q).start.column.toNat :=
  Position.column_le_of_rank_le hline
    ((List.pairwise_cons.1 h.pairwise).1 _ (List.mem_map_of_mem hq))

/-- **What is removed from a line comes before the next pair** that is: so it does with
one more pair in the log. -/
theorem removed_le_start {log : ShiftLog} {p : Position} {ps : List Position}
    (h : Ascending ((p :: ps).map removePair)) (hp : t.PairAt p)
    (hlog : ∀ q ∈ p :: ps, log.total q.line ≤ (removePair q).start.column.toNat) :
    ∀ q ∈ ps, ShiftLog.total ((p.line, 2) :: log) q.line
      ≤ (removePair q).start.column.toNat := by
  obtain ⟨hlogp, hlogps⟩ := List.forall_mem_cons.1 hlog
  intro q hq
  rw [ShiftLog.total]
  split_ifs with hline
  · -- what is logged now ends where this pair does, before the next one starts
    have hafter := stop_le_start_removePair h hq hline
    have hstart := hp.start
    have hstop := hp.stop
    rw [← hline]
    show 2 + _ ≤ _
    omega
  · rw [Nat.zero_add]
    exact hlogps q hq

/-- The first removed pair has a cursor. -/
theorem cursorFor_first {log : ShiftLog} {p : Position} {ps : List Position}
    (h : Ascending ((p :: ps).map removePair)) (hps : ∀ q ∈ p :: ps, t.PairAt q)
    (hlog : log.total p.line ≤ (removePair p).start.column.toNat) :
    t.CursorFor log ((p :: ps).map removePair) p
      (.cursor ⟨p.line, p.column - 1 - log.on p.line⟩) := by
  obtain ⟨hp, hps'⟩ := List.forall_mem_cons.1 hps
  have hstart := hp.start
  have hstop := hp.stop
  have hwidth := hp.le_width
  have htotal : (log.on p.line).toNat = log.total p.line := by
    have hlt := (removePair p).start.column.toNat_lt
    rw [ShiftLog.toNat_on, Nat.mod_eq_of_lt (Nat.lt_of_le_of_lt hlog hlt)]
  have hcolumn : (p.column - 1 - log.on p.line).toNat
      = (removePair p).start.column.toNat - log.total p.line := by
    rw [← htotal]
    refine UInt32.toNat_sub_of_le _ _ (UInt32.le_iff_toNat_le.2 ?_)
    rw [htotal]
    exact hlog
  have hsum : removed p.line.toNat ((p :: ps).map removePair)
      = (removePair p).stop.column.toNat - (removePair p).start.column.toNat
        + removed p.line.toNat (ps.map removePair) :=
    sumOn_cons_self _ (removePair p) _
  -- the other pairs of the line lie between this one and the end of the line
  have hrest : p.column.toNat + 1 + removed p.line.toNat (ps.map removePair)
      ≤ (t.line p.line.toNat).width := by
    refine add_removed_le h.tail (sameLine_removePair ps) hwidth ?_ ?_
    · intro e he hline
      obtain ⟨q, hq, rfl⟩ := List.mem_map.1 he
      rw [← hstop]
      exact stop_le_start_removePair h hq (UInt32.toNat_inj.1 hline.symm)
    · intro e he hline
      obtain ⟨q, hq, rfl⟩ := List.mem_map.1 he
      have hq' := hps' q hq
      rw [hq'.stop, ← hline]
      exact hq'.le_width
  refine ⟨_, rfl, rfl, ?_, ?_⟩
  · rw [hcolumn, hsum]
    omega
  · rw [hcolumn, hsum]
    omega

/-- **There is a cursor for every removed pair, and only for those.** -/
theorem cursorFor_removalCursors {log : ShiftLog} {ps : List Position}
    (h : Ascending (ps.map removePair)) (hps : ∀ p ∈ ps, t.PairAt p)
    (hlog : ∀ p ∈ ps, log.total p.line ≤ (removePair p).start.column.toNat) :
    (∀ s ∈ removalCursors log ps, ∃ p ∈ ps, t.CursorFor log (ps.map removePair) p s)
    ∧ ∀ p ∈ ps, ∃ s ∈ removalCursors log ps, t.CursorFor log (ps.map removePair) p s := by
  induction ps generalizing log with
  | nil => exact ⟨nofun, nofun⟩
  | cons p ps ih =>
    obtain ⟨hp, hps'⟩ := List.forall_mem_cons.1 hps
    have hfirst := cursorFor_first h hps (hlog p List.mem_cons_self)
    have hlog' := removed_le_start h hp hlog
    obtain ⟨hcursors, hpairs⟩ := ih h.tail hps' hlog'
    rw [removalCursors]
    refine ⟨List.forall_mem_cons.2 ⟨⟨p, List.mem_cons_self, hfirst⟩, fun s hs => ?_⟩,
      List.forall_mem_cons.2 ⟨⟨_, List.mem_cons_self, hfirst⟩, fun q hq => ?_⟩⟩
    · obtain ⟨q, hq, hcursor⟩ := hcursors s hs
      exact ⟨q, List.mem_cons_of_mem p hq, (cursorFor_cons hp).1 hcursor⟩
    · obtain ⟨s, hs, hcursor⟩ := hpairs q hq
      exact ⟨s, List.mem_cons_of_mem _ hs, (cursorFor_cons hp).1 hcursor⟩

/-- Around a position inside an empty pair there is a pair. -/
theorem pairAt_of_inEmptyPair (hsource : ∀ line, source.lineText line = t.line line.toNat)
    {p : Position} (hp : t.Reach [] p) (h : source.inEmptyPair p) : t.PairAt p := by
  obtain ⟨x, y, pre, post, -, hx, hy, hline, hstart, hcolumn, hstop⟩ :=
    TokenSource.exists_of_inEmptyPair h
  rw [hsource] at hline
  have hpair : Text.width [x, y] = 2 := by
    rw [Text.width_cons, Text.width_cons, hx, hy]
    rfl
  have hsplit : t.line p.line.toNat = (pre ++ [x, y]) ++ post := by
    rw [hline, List.append_assoc]
    rfl
  have hbefore : (t.line p.line.toNat).take
      ((t.line p.line.toNat).index (removePair p).start.column.toNat) = pre := by
    show List.take (Text.index _ (p.column - 1).toNat) _ = _
    rw [hstart, hline, Text.take_index_width_append]
  have hafter : (t.line p.line.toNat).take
      ((t.line p.line.toNat).index (removePair p).stop.column.toNat) = pre ++ [x, y] := by
    show List.take (Text.index _ (p.column + 1).toNat) _ = _
    rw [hstop, ← hpair, ← Text.width_append, hsplit, Text.take_index_width_append]
  refine ⟨hp.1, ?_, ?_, ⟨rfl, hp.line_lt, List.not_mem_nil, ?_⟩, ?_⟩
  · show (p.column - 1).toNat + 1 = _
    omega
  · show (p.column + 1).toNat = _
    omega
  · show Text.width _ = Text.width _ + ((p.column + 1).toNat - (p.column - 1).toNat)
    rw [show (removePair p).start.line = p.line from rfl, hbefore, hafter, Text.width_append,
      hpair, hstart, hstop]
    omega
  · rw [hsplit, Text.width_append, Text.width_append, hpair]
    omega

/-- **Pairs are removed with a cursor left for each.** -/
theorem tracks_backspace (hsource : ∀ line, source.lineText line = t.line line.toNat)
    (hss : ∀ s ∈ ss, t.Reach [] s.anchor ∧ t.Reach [] s.head)
    (h : backspace source ss = .edit plan) : plan.Tracks t ∧ plan.MarksExposed t := by
  unfold backspace at h
  split_ifs at h with hinside
  obtain rfl := KeyOutcome.edit.inj h
  have hpairs : ∀ p ∈ keptPairs none ((Selection.sortByStart ss).map (·.head)), t.PairAt p := by
    intro p hp
    obtain ⟨s, hs, rfl⟩ := List.mem_map.1 (mem_of_mem_keptPairs hp)
    rw [Selection.mem_sortByStart] at hs
    exact pairAt_of_inEmptyPair hsource (hss s hs).2 (hinside.2 s hs).2
  have hascending : Ascending ((keptPairs none ((Selection.sortByStart ss).map (·.head))).map
      removePair) := by
    refine ascending_keptPairs fun p hp => ?_
    obtain ⟨s, hs, rfl⟩ := List.mem_map.1 hp
    exact start_le_stop_removePair (hinside.2 s (Selection.mem_sortByStart.1 hs)).2
  generalize keptPairs none ((Selection.sortByStart ss).map (·.head)) = kept at *
  have hnone : ∀ i, inserted i (kept.map removePair) = 0 := by
    intro i
    refine sumOn_eq_zero fun e he _ => ?_
    obtain ⟨p, -, rfl⟩ := List.mem_map.1 he
    rfl
  have hlog : ∀ p ∈ kept, ShiftLog.total [] p.line ≤ (removePair p).start.column.toNat :=
    fun _ _ => Nat.zero_le _
  obtain ⟨hcursors, hkept⟩ := cursorFor_removalCursors hascending hpairs hlog
  show EditPlan.Tracks ⟨kept.map removePair, removalCursors [] kept⟩ t
    ∧ EditPlan.MarksExposed ⟨kept.map removePair, removalCursors [] kept⟩ t
  refine ⟨⟨hascending, fun e he => ?_, fun s hs => ?_⟩, fun i hreturn hnot => ?_⟩
  · obtain ⟨p, hp, rfl⟩ := List.mem_map.1 he
    exact (hpairs p hp).within
  · obtain ⟨p, hp, q, rfl, hline, -, hwidth⟩ := hcursors s hs
    have hreach : t.Reach (kept.map removePair) q := by
      refine ⟨hline ▸ (hpairs p hp).line_lt, ?_⟩
      rw [hline, hnone]
      change _ + (0 + _) ≤ _ at hwidth
      rwa [Nat.zero_add] at hwidth
    exact ⟨hreach, hreach⟩
  · -- the pair that ends the line leaves its cursor there
    obtain ⟨e, he, hi, hlen⟩ := Text.exists_stop_of_getLast?_edited hascending
      (sameLine_removePair kept) hreturn hnot
    obtain ⟨p, hp, rfl⟩ := List.mem_map.1 he
    obtain ⟨s, hs, q, rfl, hline, hcolumn, -⟩ := hkept p hp
    change p.line.toNat = i at hi
    change _ ≤ _ + (0 + _) at hcolumn
    have hwidth := Text.measure_take_fit_le units (t.line i) (removePair p).stop.column.toNat
    rw [← Text.index, List.take_of_length_le ((Text.length_line_le t i).trans hlen), ← Text.width,
      (hpairs p hp).stop] at hwidth
    refine ⟨_, hs, ?_, ?_⟩
    · show q.line.toNat = i
      rw [hline, hi]
    · rw [hi, Nat.zero_add] at hcolumn
      dsimp only
      rw [hnone]
      exact hwidth.trans hcolumn

end EditorCore
