import EditorCore.Proofs.Edit.Undo

/-!
# Columns have room

What a command for pairs adds to a column is counted over all selections of a line, so
that it stays a word depends on how many there are. Selections in normal form have gaps
between them, hence on a line there are no more ends than columns, and what is inserted
at them adds at most four columns for each (`TextEdit.inserted_add_le`). On the lines of
a text of less than 2²⁹ bytes that leaves room (`hasRoom_of_pairwise`), and the room is
all the arithmetic needs: what is logged and what is still planned bound every sum.

Backspace subtracts, and what it subtracts are the pairs removed from the line so far.
Those that are kept lie side by side, to the left of the next one, so they are no wider
than what comes before it (`removed_le_start`).

Indentation has room in such a text as well, if tab size and step are of moderate size
(`Text.sumsFit_of_byteSize_lt`).
-/

namespace EditorCore

open TextEdit

variable {source : TokenSource} {t : Text} {ss : List Selection} {log : ShiftLog}
  {e : TextEdit} {es : List TextEdit} {p : Position} {ps : List Position}
  {opening closing : Char}

/-! ## Counting ends -/

/-- No line is wider than the bytes of a text. -/
theorem Text.width_line_le_byteSize (t : Text) (i : Nat) : (t.line i).width ≤ t.byteSize := by
  rcases Nat.lt_or_ge i t.segments.length with hlt | hge
  · have hbytes := congrArg Text.byteSize (before_append_line_append hlt)
    have hwidth := width_le_byteSize (t.line i)
    rw [byteSize_append, byteSize_append] at hbytes
    omega
  · rw [line, segment_of_length_le hge]
    exact Nat.zero_le _

/-- **Insertions in order add at most four columns for each column** that they may be
at. -/
theorem TextEdit.inserted_add_le (h : es.Pairwise fun e f => e.start.rank < f.start.rank)
    (hwidth : ∀ e ∈ es, e.newText.width ≤ 4) {i first last : Nat} (hfirst : first ≤ last + 1)
    (hcolumns : ∀ e ∈ es, e.start.line.toNat = i →
      first ≤ e.start.column.toNat ∧ e.start.column.toNat ≤ last) :
    inserted i es + 4 * first ≤ 4 * (last + 1) := by
  induction es generalizing first with
  | nil =>
    show 0 + _ ≤ _
    omega
  | cons e es ih =>
    obtain ⟨he, hes⟩ := List.pairwise_cons.1 h
    obtain ⟨hewidth, heswidth⟩ := List.forall_mem_cons.1 hwidth
    obtain ⟨hecolumn, hescolumns⟩ := List.forall_mem_cons.1 hcolumns
    by_cases hi : e.start.line.toNat = i
    · obtain ⟨hlow, hhigh⟩ := hecolumn hi
      -- the later ones of the line are further to the right
      have hlater : ∀ f ∈ es, f.start.line.toNat = i →
          e.start.column.toNat + 1 ≤ f.start.column.toNat ∧ f.start.column.toNat ≤ last := by
        intro f hf hf'
        have hrank := he f hf
        unfold Position.rank at hrank
        rw [hi, hf'] at hrank
        exact ⟨Nat.lt_of_add_lt_add_left hrank, (hescolumns f hf hf').2⟩
      have hrest := ih hes heswidth (Nat.succ_le_succ hhigh) hlater
      subst hi
      rw [inserted, sumOn_cons_self, ← inserted]
      omega
    · rw [inserted, sumOn_cons_of_ne _ hi]
      exact ih hes heswidth hfirst hescolumns

/-- **There is room on the lines of a text** of less than 2²⁹ bytes. -/
theorem hasRoom_of_pairwise (hsize : t.byteSize < 2 ^ 29)
    (hes : es.Pairwise fun e f => e.start.rank < f.start.rank)
    (hinsert : ∀ e ∈ es, t.Reach [] e.start ∧ e.newText.width ≤ 4)
    (hps : ∀ p ∈ ps, t.Reach [] p) : HasRoom [] es ps := by
  intro p hp
  have hcolumn := (hps p hp).2
  have hline := t.width_line_le_byteSize p.line.toNat
  have hcolumns : ∀ e ∈ es, e.start.line.toNat = p.line.toNat →
      0 ≤ e.start.column.toNat ∧ e.start.column.toNat ≤ (t.line p.line.toNat).width := by
    intro e he hi
    have hreach := (hinsert e he).1.2
    rw [hi] at hreach
    exact ⟨Nat.zero_le _, hreach⟩
  have hinserted := inserted_add_le hes (fun e he => (hinsert e he).2) (Nat.zero_le _) hcolumns
  change _ + 0 ≤ _ + 0 at hcolumn
  change _ + (0 + _) < 2 ^ 32
  omega

/-- An edit that is logged needs the room it needs as long as it is planned. -/
theorem hasRoom_cons {width : UInt32} (hwidth : e.newText.width = width.toNat) :
    HasRoom ((e.start.line, width) :: log) es ps ↔ HasRoom log (e :: es) ps := by
  refine forall₂_congr fun p _ => ?_
  unfold inserted
  rw [ShiftLog.total_cons_add_sumOn (fun e => e.newText.width) hwidth]

theorem HasRoom.mono {qs : List Position} (h : HasRoom log es ps) (hqs : qs ⊆ ps) :
    HasRoom log es qs := fun q hq => h q (hqs hq)

/-- Where there is room, an end can be moved by what is logged. -/
theorem HasRoom.toNat_on_lt (h : HasRoom log es ps) (hp : p ∈ ps) :
    p.column.toNat + (log.on p.line).toNat < UInt32.size := by
  have hroom := h p hp
  have hlog := log.toNat_on_le p.line
  change _ < 2 ^ 32 at hroom
  show _ < 2 ^ 32
  omega

/-- Where there is room, an edit can be logged. -/
theorem HasRoom.toNat_on_add_lt {width : UInt32} (h : HasRoom log (e :: es) ps)
    (he : e.start ∈ ps) (hwidth : e.newText.width = width.toNat) :
    e.start.column.toNat + (log.on e.start.line).toNat + width.toNat < UInt32.size := by
  have hroom := h e.start he
  have hlog := log.toNat_on_le e.start.line
  rw [inserted, sumOn_cons_self, hwidth] at hroom
  change _ < 2 ^ 32 at hroom
  show _ < 2 ^ 32
  omega

namespace Checked

/-! ## Stepping over -/

/-- The columns of a short text are far from the last one. -/
theorem toNat_column_lt (hsize : t.byteSize < 2 ^ 29) (hp : t.Reach [] p) :
    p.column.toNat < 2 ^ 29 := by
  have hcolumn := hp.2
  have hline := t.width_line_le_byteSize p.line.toNat
  change _ + 0 ≤ _ + 0 at hcolumn
  omega

theorem closePair_eq (hsize : t.byteSize < 2 ^ 29)
    (hss : ∀ s ∈ ss, t.Reach [] s.anchor ∧ t.Reach [] s.head) (closing : Char) :
    closePair source ss closing = some (EditorCore.closePair source ss closing) := by
  unfold closePair EditorCore.closePair
  split_ifs
  · have hmoves : ∀ s ∈ Selection.sortByStart ss,
        Computes (do
            let column ← add s.head.column (columnWidth closing)
            return Selection.cursor ⟨s.head.line, column⟩)
          (s.head.column.toNat + (columnWidth closing).toNat < UInt32.size ∧ True)
          (.cursor ⟨s.head.line, s.head.column + columnWidth closing⟩) :=
      fun s _ => (computes_add _ _).bind fun _ => computes_pure _
    rw [(computes_mapM hmoves).eq fun s hs => ⟨?_, trivial⟩]
    · rfl
    · have hcolumn := toNat_column_lt hsize (hss s (Selection.mem_sortByStart.1 hs)).2
      have hunits := units_le_two closing
      rw [toNat_columnWidth]
      show _ < 2 ^ 32
      omega
  · rfl

/-! ## Inserting -/

/-- The width of a pair. -/
theorem toNat_columnWidth_add (opening closing : Char) :
    (columnWidth opening + columnWidth closing).toNat = units opening + units closing := by
  have hopening := units_le_two opening
  have hclosing := units_le_two closing
  rw [UInt32.toNat_add, toNat_columnWidth, toNat_columnWidth, Nat.mod_eq_of_lt (by omega)]

/-- **Pairs are inserted without overflow** where their cursors have room to move. -/
theorem pairCursors_eq (h : HasRoom log (ps.map (insertPair opening closing)) ps) :
    pairCursors opening closing log ps = some (EditorCore.pairCursors opening closing log ps) := by
  induction ps generalizing log with
  | nil => rfl
  | cons p ps ih =>
    have hboth := toNat_columnWidth_add opening closing
    have hpair : (insertPair opening closing p).newText.width
        = (columnWidth opening + columnWidth closing).toNat := hboth.symm
    have hmoved := h.toNat_on_lt List.mem_cons_self
    have hlogged : p.column.toNat + (log.on p.line).toNat + _ < UInt32.size :=
      h.toNat_on_add_lt List.mem_cons_self hpair
    rw [hboth] at hlogged
    have hinside : (p.column + log.on p.line).toNat + (columnWidth opening).toNat
        < UInt32.size := by
      rw [toNat_add hmoved, toNat_columnWidth]
      exact Nat.lt_of_le_of_lt (by omega) hlogged
    have hwidths : (columnWidth opening).toNat + (columnWidth closing).toNat < UInt32.size := by
      rw [toNat_columnWidth, toNat_columnWidth]
      exact Nat.lt_of_le_of_lt (by omega) hlogged
    have hrecord : (log.on p.line).toNat + (columnWidth opening + columnWidth closing).toNat
        < UInt32.size := by
      rw [hboth]
      exact Nat.lt_of_le_of_lt (by omega) hlogged
    have hrest := ih (((hasRoom_cons hpair).2 h).mono (List.subset_cons_self p ps))
    change pairCursors opening closing ((p.line, _) :: log) ps = _ at hrest
    simp only [pairCursors, add_eq hmoved, add_eq hinside, add_eq hwidths, record_eq hrecord,
      hrest, Option.bind_eq_bind, Option.bind_some]
    rfl

/-- **Selections are wrapped without overflow** where their ends have room to move. -/
theorem wrapped_eq (h : HasRoom log (ss.flatMap (wrapEdits opening closing))
      (ss.flatMap fun s => [s.start, s.stop])) :
    wrapped opening closing log ss = some (EditorCore.wrapped opening closing log ss) := by
  induction ss generalizing log with
  | nil => rfl
  | cons s ss ih =>
    have hopening : (insert s.start [opening]).newText.width = (columnWidth opening).toNat :=
      (toNat_columnWidth opening).symm
    have hclosing : (insert s.stop [closing]).newText.width = (columnWidth closing).toNat :=
      (toNat_columnWidth closing).symm
    -- the two edits of `s` are logged one after the other
    have hopened : HasRoom ((s.start.line, columnWidth opening) :: log)
        (insert s.stop [closing] :: ss.flatMap (wrapEdits opening closing))
        ((s :: ss).flatMap fun s => [s.start, s.stop]) := (hasRoom_cons hopening).2 h
    have hclosed : HasRoom
        ((s.stop.line, columnWidth closing) :: (s.start.line, columnWidth opening) :: log)
        (ss.flatMap (wrapEdits opening closing))
        ((s :: ss).flatMap fun s => [s.start, s.stop]) := (hasRoom_cons hclosing).2 hopened
    have hstart : s.start ∈ (s :: ss).flatMap fun s => [s.start, s.stop] := List.mem_cons_self
    have hstop : s.stop ∈ (s :: ss).flatMap fun s => [s.start, s.stop] :=
      List.mem_cons_of_mem _ List.mem_cons_self
    have hopen : (log.on s.start.line).toNat + (columnWidth opening).toNat < UInt32.size :=
      Nat.lt_of_le_of_lt (Nat.add_le_add_right (Nat.le_add_left _ _) _)
        (h.toNat_on_add_lt hstart hopening)
    have hclose : (ShiftLog.on ((s.start.line, columnWidth opening) :: log) s.stop.line).toNat
        + (columnWidth closing).toNat < UInt32.size :=
      Nat.lt_of_le_of_lt (Nat.add_le_add_right (Nat.le_add_left _ _) _)
        (hopened.toNat_on_add_lt hstop hclosing)
    have hrest := ih (hclosed.mono fun p hp => List.mem_cons_of_mem _ (List.mem_cons_of_mem _ hp))
    simp only [wrapped, record_eq hopen, add_eq (hopened.toNat_on_lt hstart),
      add_eq (hopened.toNat_on_lt hstop), record_eq hclose, hrest, Option.bind_eq_bind,
      Option.bind_some]
    rfl

end Checked

/-- Cursors with gaps between them have room for pairs in a short text. -/
theorem hasRoom_insertPairs (hsize : t.byteSize < 2 ^ 29)
    (hgaps : ss.Pairwise fun s t => s.stop.rank < t.start.rank) (hcursors : ∀ s ∈ ss, s.isEmpty)
    (hheads : ∀ s ∈ ss, t.Reach [] s.head) (opening closing : Char) :
    HasRoom [] ((ss.map (·.head)).map (insertPair opening closing)) (ss.map (·.head)) := by
  refine hasRoom_of_pairwise hsize ?_ ?_ (List.forall_mem_map.2 hheads)
  · rw [List.pairwise_map, List.pairwise_map]
    refine hgaps.imp_of_mem fun {s t} hs ht hst => ?_
    have hstop := Selection.isEmpty_iff_rank_eq.1 (hcursors s hs)
    rw [Selection.start_eq_head_of_isEmpty (hcursors s hs)] at hstop
    rwa [Selection.start_eq_head_of_isEmpty (hcursors t ht), ← hstop] at hst
  · intro e he
    obtain ⟨p, hp, rfl⟩ := List.mem_map.1 he
    obtain ⟨s, hs, rfl⟩ := List.mem_map.1 hp
    exact ⟨hheads s hs, Nat.add_le_add (units_le_two opening) (units_le_two closing)⟩

/-- Selections with gaps between them have room to be wrapped in a short text. -/
theorem hasRoom_surround (hsize : t.byteSize < 2 ^ 29)
    (hgaps : ss.Pairwise fun s t => s.stop.rank < t.start.rank) (hfull : ∀ s ∈ ss, ¬ s.isEmpty)
    (hss : ∀ s ∈ ss, t.Reach [] s.anchor ∧ t.Reach [] s.head) (opening closing : Char) :
    HasRoom [] (ss.flatMap (wrapEdits opening closing)) (ss.flatMap fun s => [s.start, s.stop]) := by
  refine hasRoom_of_pairwise hsize ?_ (fun e he => ?_) fun p hp => ?_
  · refine List.pairwise_flatMap.2 ⟨fun s hs => List.pairwise_pair.2 ?_,
      hgaps.imp fun {s t} hst => ?_⟩
    · exact Nat.lt_of_le_of_ne s.start_le_stop fun heq =>
        hfull s hs (Selection.isEmpty_iff_rank_eq.2 heq)
    · -- both edits of `s` are within `s`, and both of `t` within `t`
      have hs := s.start_le_stop
      have ht := t.start_le_stop
      simp only [wrapEdits, List.mem_cons, List.not_mem_nil, or_false, TextEdit.insert]
      rintro e (rfl | rfl) f (rfl | rfl) <;> dsimp only <;> omega
  · obtain ⟨s, hs, he⟩ := List.mem_flatMap.1 he
    obtain ⟨hstart, hstop⟩ := Selection.bounds_of_ends (hss s hs)
    simp only [wrapEdits, List.mem_cons, List.not_mem_nil, or_false] at he
    rcases he with rfl | rfl
    · exact ⟨hstart, (units_le_two opening).trans (by decide)⟩
    · exact ⟨hstop, (units_le_two closing).trans (by decide)⟩
  · obtain ⟨s, hs, hp⟩ := List.mem_flatMap.1 hp
    obtain ⟨hstart, hstop⟩ := Selection.bounds_of_ends (hss s hs)
    simp only [List.mem_cons, List.not_mem_nil, or_false] at hp
    rcases hp with rfl | rfl
    · exact hstart
    · exact hstop

namespace Checked

/-- **Opening characters are typed without overflow**, for selections with gaps between
them in a short text. -/
theorem openPair_eq (hsize : t.byteSize < 2 ^ 29)
    (hgaps : ss.Pairwise fun s t => s.stop.rank < t.start.rank)
    (hss : ∀ s ∈ ss, t.Reach [] s.anchor ∧ t.Reach [] s.head) (opening closing : Char) :
    openPair source ss opening closing
      = some (EditorCore.openPair source ss opening closing) := by
  have hsort : Selection.sortByStart ss = ss :=
    Selection.sortByStart_of_pairwise (hgaps.imp fun {s _} hst => s.start_le_stop.trans hst.le)
  unfold openPair EditorCore.openPair
  split_ifs with _ _ hcursors hfull
  · rfl
  · exact closePair_eq hsize hss closing
  · have hroom := hasRoom_insertPairs hsize hgaps (fun s hs => (hcursors s hs).1)
      (fun s hs => (hss s hs).2) opening closing
    rw [insertPairs, hsort, pairCursors_eq hroom, EditorCore.insertPairs, hsort]
    rfl
  · have hroom := hasRoom_surround hsize hgaps hfull hss opening closing
    rw [surround, hsort, wrapped_eq hroom, EditorCore.surround, hsort]
    rfl
  · exact closePair_eq hsize hss closing
  · rfl

/-! ## Removing -/

/-- Next to a cursor in a pair there is a column on each side. -/
theorem columns_of_pairAt (h : t.PairAt p) :
    1 ≤ p.column ∧ p.column.toNat + (1 : UInt32).toNat < UInt32.size := by
  have hstart := h.start
  have hstop := h.stop
  have hword := (removePair p).stop.column.toNat_lt
  rw [hstop] at hword
  refine ⟨UInt32.le_iff_toNat_le.2 ?_, hword⟩
  show 1 ≤ _
  omega

/-- **Pairs are removed without overflow**, and no cursor falls below column 0. -/
theorem removals_eq {last : Option Position} (hps : ∀ p ∈ ps, t.PairAt p)
    (h : Ascending ((keptPairs last ps).map removePair))
    (hlog : ∀ p ∈ keptPairs last ps, log.total p.line ≤ (removePair p).start.column.toNat) :
    removals last log ps
      = some ((keptPairs last ps).map removePair, removalCursors log (keptPairs last ps)) := by
  induction ps generalizing last log with
  | nil => rfl
  | cons p ps ih =>
    obtain ⟨hp, hps⟩ := List.forall_mem_cons.1 hps
    obtain ⟨hleft, hright⟩ := columns_of_pairAt hp
    rw [keptPairs] at h hlog ⊢
    simp only [removals, sub_eq hleft, Option.bind_eq_bind, Option.bind_some]
    split_ifs at h hlog ⊢ with hlast
    · exact ih hps h hlog
    · have hbefore := hlog p List.mem_cons_self
      have hon := (log.toNat_on_le p.line).trans hbefore
      have hcolumn : log.on p.line ≤ p.column - 1 := UInt32.le_iff_toNat_le.2 hon
      have hrecord : (log.on p.line).toNat + (2 : UInt32).toNat < UInt32.size := by
        have hstart := hp.start
        change _ + 1 < UInt32.size at hright
        show _ + 2 < UInt32.size
        omega
      have hrest := ih hps h.tail (removed_le_start h hp hlog)
      simp only [add_eq hright, sub_eq hcolumn, record_eq hrecord, hrest, Option.bind_some]
      rfl

/-- **Cursors are looked at without overflow**, and told to be inside empty pairs as they
are. -/
theorem exists_allInEmptyPair_eq (source : TokenSource) (hsize : t.byteSize < 2 ^ 29)
    (hss : ∀ s ∈ ss, t.Reach [] s.head) :
    ∃ inside, allInEmptyPair source ss = some inside
      ∧ (inside = true ↔ ∀ s ∈ ss, s.isEmpty ∧ source.inEmptyPair s.head) := by
  induction ss with
  | nil => exact ⟨true, rfl, iff_of_true rfl nofun⟩
  | cons s ss ih =>
    obtain ⟨hs, hss⟩ := List.forall_mem_cons.1 hss
    obtain ⟨inside, hrest, hinside⟩ := ih hss
    have hcolumn := toNat_column_lt hsize hs
    have hright : s.head.column.toNat + (1 : UInt32).toNat < UInt32.size := by
      show _ + 1 < 2 ^ 32
      omega
    have hpair : source.inEmptyPair s.head ↔ s.head.column ≠ 0
        ∧ emptyPairs.contains ((source.lineText s.head.line).slice (s.head.column - 1).toNat
          (s.head.column + 1).toNat) := by
      rw [TokenSource.inEmptyPair, Bool.and_eq_true, decide_eq_true_eq]
    rw [allInEmptyPair]
    simp only [List.forall_mem_cons, hpair, ← hinside]
    split_ifs with hcursor
    · obtain ⟨hempty, hne⟩ := hcursor
      have hleft : 1 ≤ s.head.column := by
        rw [UInt32.le_iff_toNat_le]
        exact Nat.pos_of_ne_zero fun hzero => hne (UInt32.toNat_inj.1 hzero)
      simp only [sub_eq hleft, add_eq hright, Option.bind_eq_bind, Option.bind_some]
      split_ifs with hmem
      · exact ⟨inside, hrest, by simp only [hempty, hne, hmem, ne_eq, not_false_eq_true, true_and]⟩
      · exact ⟨false, rfl, iff_of_false Bool.false_ne_true fun h => hmem h.1.2.2⟩
    · exact ⟨false, rfl, iff_of_false Bool.false_ne_true fun h => hcursor ⟨h.1.1, h.1.2.1⟩⟩

/-- **Backspace computes without overflow**, for cursors in a short text. -/
theorem backspace_eq (hsource : ∀ line, source.lineText line = t.line line.toNat)
    (hsize : t.byteSize < 2 ^ 29) (hss : ∀ s ∈ ss, t.Reach [] s.anchor ∧ t.Reach [] s.head) :
    backspace source ss = some (EditorCore.backspace source ss) := by
  obtain ⟨inside, hall, hinside⟩ :=
    exists_allInEmptyPair_eq source hsize fun s hs => (hss s hs).2
  unfold backspace EditorCore.backspace
  by_cases hnil : ss = []
  · rw [if_pos hnil, if_neg fun h => h.1 hnil]
    rfl
  · rw [if_neg hnil, hall]
    simp only [Option.bind_eq_bind, Option.bind_some, ne_eq, hnil, not_false_eq_true, true_and,
      ← hinside]
    split_ifs with hpairs
    · rw [hinside] at hpairs
      have hheads : ∀ p ∈ (Selection.sortByStart ss).map (·.head),
          t.PairAt p ∧ source.inEmptyPair p := by
        intro p hp
        obtain ⟨s, hs, rfl⟩ := List.mem_map.1 hp
        rw [Selection.mem_sortByStart] at hs
        exact ⟨pairAt_of_inEmptyPair hsource (hss s hs).2 (hpairs s hs).2, (hpairs s hs).2⟩
      rw [removals_eq (fun p hp => (hheads p hp).1)
        (ascending_keptPairs fun p hp => start_le_stop_removePair (hheads p hp).2)
        fun _ _ => Nat.zero_le _]
      rfl
    · rfl

end Checked

/-! ## Settings of moderate size -/

/-- Fewer than 2²⁹ blanks for settings of moderate size. Each of them is as wide as a tab
at most. -/
theorem IndentSettings.fits_of_length_lt {settings : IndentSettings} {old : Text}
    (hlength : old.length < 2 ^ 29)
    (hsettings : (settings.tabStop + 1) * 2 ^ 29 + settings.indentUnit.toNat ≤ 2 ^ 32)
    (direction : IndentDirection) :
    old.TabsFit settings.tabStop 0 ∧ settings.WidthsFit direction old
      ∧ (settings.newBlanks direction old).length + 2 ^ 29 ≤ 2 ^ 32 := by
  have hpos := settings.tabStop_pos
  have hwide : ∀ blanks : Text, blanks.length ≤ old.length →
      blanks.blankWidth settings.tabStop + settings.tabStop ≤ settings.tabStop * 2 ^ 29 := by
    intro blanks hle
    have hwidth := Text.foldl_afterBlank_le hpos 0 blanks
    have hall := Nat.mul_le_mul_left settings.tabStop (Nat.succ_le_of_lt (hle.trans_lt hlength))
    rw [Nat.zero_add] at hwidth
    rw [Nat.mul_comm, Nat.succ_mul] at hall
    exact (Nat.add_le_add_right hwidth _).trans hall
  have hold := hwide old (Nat.le_refl _)
  have hnew := direction.newWidth_le settings.indentUnit.toNat (old.blankWidth settings.tabStop)
  have hfits : settings.WidthsFit direction old := by
    constructor <;> show _ < 2 ^ 32 <;> omega
  have hblanks := Text.length_le_blankWidth hpos (settings.newBlanks direction old)
  rw [blankWidth_newBlanks hfits] at hblanks
  refine ⟨fun n _ _ => ?_, hfits, by omega⟩
  have htaken := hwide (old.take n) (List.length_take_le' n old)
  show Text.blankWidth settings.tabStop (old.take n) + settings.tabStop < 2 ^ 32
  omega

/-- **In a short text all sums are words for settings of moderate size.** -/
theorem Text.sumsFit_of_byteSize_lt {t : Text} {settings : IndentSettings} {ss : List Selection}
    (hsize : t.byteSize < 2 ^ 29)
    (hsettings : (settings.tabStop + 1) * 2 ^ 29 + settings.indentUnit.toNat ≤ 2 ^ 32)
    (hss : ∀ s ∈ ss, t.Reach [] s.anchor ∧ t.Reach [] s.head) (direction : IndentDirection) :
    t.SumsFit settings direction ss := by
  have hline : ∀ i, (t.line i).indentation.length < 2 ^ 29 := fun i =>
    ((length_indentation_le _).trans (t.width_line_le_byteSize i)).trans_lt hsize
  have hfits := fun i => settings.fits_of_length_lt (hline i) hsettings direction
  have hend : ∀ p, t.Reach [] p → t.EndFits settings direction ss p := by
    intro p hp _ _ _
    have hcolumn := Checked.toNat_column_lt hsize hp
    have hnew := (hfits p.line.toNat).2.2
    show _ < 2 ^ 32
    omega
  exact ⟨fun i _ => (hfits i).1, fun i _ => (hfits i).2.1,
    fun s hs => (hss s hs).imp (hend _) (hend _)⟩

end EditorCore
