import EditorCore.Proofs.Edit.Wrap

/-!
# Cursors land in their edits

Pairs are inserted at cursors and removed around them, and either way a plan has
a cursor for every edit. Its columns are computed line by line, from what the
edits before it add on its line or take away. Here it is shown where the cursors
are in the new text: each lands in its own edit, after the opening character that
was inserted there, or where there was a pair (`Text.LandsIn`).

An edit is told from the others by what comes after it, which is what the later
edits make of the rest of the text. So cursors that coincide land in different
pairs, one beside the other, and a cursor whose pair overlaps the one removed
before it lands nowhere: it has folded into that one
(`exists_last_of_mem_keptPairs`).

Removing a pair can bring a carriage return to the end of a line, where it would
belong to the terminator. It does not where every carriage return is followed by
a line feed already.
-/

namespace EditorCore

open TextEdit

variable {t u left : Text} {e : TextEdit} {es : List TextEdit} {ps : List Position}
  {p q : Position} {log : ShiftLog} {opening closing : Char}

namespace Text

/-- **A cursor lands in an edit** of those that make `u` of `t`: it stands in `u`
right after the part `left` of the new text, and after the new text comes what
the later edits make of the rest of `t`. -/
structure LandsIn (t u left : Text) (e : TextEdit) (later : List TextEdit) (p : Position) :
    Prop where
  stands : u.Stands p
  split : ∃ front right, e.newText = left ++ right
    ∧ u = front ++ left ++ (right ++ t.spliced (e.stopByte t) later)
    ∧ u.offset p = byteSize (front ++ left)

/-- **The cursors of a plan land in its edits**, each in its own. -/
inductive Land (t u left : Text) : List TextEdit → List Selection → Prop
  | nil : Land t u left [] []
  | cons {e : TextEdit} {es : List TextEdit} {p : Position} {ss : List Selection} :
    t.LandsIn u left e es p → Land t u left es ss → Land t u left (e :: es) (.cursor p :: ss)

/-- The mark of a part of the new text lands there. -/
theorem Marks.landsIn (front right : Text) (h : (front ++ left).Marks p)
    (hnew : e.newText = left ++ right)
    (hu : u = front ++ left ++ (right ++ t.spliced (e.stopByte t) es))
    (hgoes : GoesOn (front ++ left) (right ++ t.spliced (e.stopByte t) es))
    (hline : p.line < .ofNat u.segments.length) : t.LandsIn u left e es p := by
  subst hu
  exact ⟨h.stands hgoes hline, front, right, hnew, rfl, h.offset_eq hgoes⟩

end Text

open Text

/-! ## Inserted pairs -/

/-- **The cursors of inserted pairs land in them**, after the opening character.
By induction on the cursors, where the part of the old text up to the last cursor
and that of the new text up to its pair have grown apart by the log. -/
theorem land_pairCursors {front moved : Text}
    (hplain : ∀ c ∈ [opening, closing], c ≠ '\n' ∧ c ≠ '\r') (hwords : u.Addressable)
    (hlength : u.segments.length = t.segments.length) (hps : ∀ p ∈ ps, t.Stands p)
    (horder : ps.Pairwise fun p q => p.rank ≤ q.rank) (hgrown : Grown front moved log)
    (hfront : ∀ p ∈ ps.head?, front <+: t.take (t.charsBefore p))
    (hu : u = moved ++ t.spliced front.byteSize (ps.map (insertPair opening closing))) :
    t.Land u [opening] (ps.map (insertPair opening closing))
      (pairCursors opening closing log ps) := by
  induction ps generalizing front moved log with
  | nil => exact .nil
  | cons p ps ih =>
    obtain ⟨hp, hps⟩ := List.forall_mem_cons.1 hps
    obtain ⟨hnext, horder⟩ := List.pairwise_cons.1 horder
    obtain ⟨gap, hgap⟩ := hfront p rfl
    have hopening := hplain opening List.mem_cons_self
    have hnot : ∀ {g : Text}, (∀ c ∈ g, c ∈ [opening, closing]) → '\n' ∉ g :=
      fun hg hmem => (hplain _ (hg _ hmem)).1 rfl
    have hcopied := hgap ▸ hgrown.append gap
    have hopened := hcopied.insert (g := [opening]) hp.marks
      (hnot (by simp)) (toNat_columnWidth opening).symm
    have hpair : Text.width [opening, closing]
        = (columnWidth opening + columnWidth closing).toNat := by
      have h₁ := units_le_two opening
      have h₂ := units_le_two closing
      rw [UInt32.toNat_add, toNat_columnWidth, toNat_columnWidth, Nat.mod_eq_of_lt (by omega)]
      rfl
    have hinserted := hcopied.insert hp.marks (hnot (by simp)) hpair
    rw [List.map_cons, spliced_cons (e := insertPair opening closing p) hgap] at hu
    have hstop : (insertPair opening closing p).stopByte t = byteSize (t.take (t.charsBefore p)) :=
      (Nat.max_self _).trans (offset_eq_byteAt t p)
    have hsplit : u = moved ++ gap ++ [opening] ++ ([closing]
        ++ t.spliced ((insertPair opening closing p).stopByte t)
          (ps.map (insertPair opening closing))) := by
      rw [hu]
      show _ ++ (_ ++ [opening, closing] ++ _) = _
      simp
    refine .cons (Marks.landsIn (moved ++ gap) [closing] ?_ rfl hsplit
      (goesOn_concat _ _ hopening) (hlength ▸ hp.1.1)) (ih hps horder hinserted ?_ ?_)
    · have hmarks := hopened.marks hp.marks
        (width_lastLine_lt hsplit (goesOn_concat _ _ hopening) hwords)
      rwa [show ShiftLog.on ((p.line, columnWidth opening) :: log) p.line
        = log.on p.line + columnWidth opening from if_pos rfl, ← UInt32.add_assoc] at hmarks
    · exact fun q hq => List.take_prefix_take_left
        (charsBefore_mono (hnext q (List.mem_of_mem_head? hq)))
    · rw [hsplit, hstop]
      simp

/-- A plan that tracks its edits applies, in one pass, and keeps the number of
lines. -/
theorem EditPlan.Tracks.apply_ok {plan : EditPlan} (h : plan.Tracks t) :
    plan.apply t = .ok (t.spliced 0 plan.edits)
      ∧ (t.spliced 0 plan.edits).segments.length = t.segments.length := by
  have happly : plan.apply t = .ok (t.spliced 0 plan.edits) := by
    rw [EditPlan.apply_eq, EditPlan.overlap?_eq_none h.ascending fun _ _ => Nat.zero_le _]
  exact ⟨happly, (h.segment_of_apply happly).1⟩

/-- **Where an opening key inserts pairs, every cursor gets its own.** For cursors
in any order, some of which may coincide, the pairs are inserted in the order of
the cursors, one for each of them, and the plan applies. Where the new columns are
words, the planned cursors land in their pairs, between the two characters. -/
theorem Document.openPair_inserts (d : Document) (ss : List Selection) (plan : EditPlan)
    (hplain : ∀ c ∈ [opening, closing], c ≠ '\n' ∧ c ≠ '\r')
    (hcursors : ∀ s ∈ ss, s.isEmpty)
    (hinside : ∀ s ∈ ss, d.contains s.anchor ∧ d.contains s.head)
    (h : openPair d.source ss opening closing = .edit plan) (hedits : plan.edits ≠ []) :
    plan.edits = (Selection.sortByStart ss).map (fun s => .insert s.head [opening, closing])
    ∧ ∃ u, plan.apply d.text = .ok u ∧ u = d.text.spliced 0 plan.edits
      ∧ (u.Addressable → d.text.Land u [opening] plan.edits plan.selections) := by
  obtain ⟨rfl, hpairable⟩ := eq_insertPairs_of_openPair hcursors h hedits
  have hreach : ∀ s ∈ ss, d.text.Reach [] s.anchor ∧ d.text.Reach [] s.head :=
    fun s hs => (hinside s hs).imp Document.reach_of_contains Document.reach_of_contains
  obtain ⟨happly, hlength⟩ := (tracks_insertPairs hplain hcursors hreach).1.apply_ok
  refine ⟨List.map_map, _, happly, rfl, fun hwords => ?_⟩
  refine land_pairCursors hplain hwords hlength (fun p hp => ?_) (pairwise_heads hcursors)
    (grown_nil []) (fun p _ => List.nil_prefix) rfl
  obtain ⟨s, hs, rfl⟩ := List.mem_map.1 hp
  rw [Selection.mem_sortByStart] at hs
  exact ⟨(hreach s hs).2,
    atBoundary_of_pairable d.lineText_eq_line (hreach s hs).2 (hpairable s hs)⟩

/-- Three cursors out of order, two of which coincide behind a character of two
columns; the opening character takes two columns as well. -/
theorem Document.openPair_inserts_coinciding :
    let text : Text := ['a', '\r', '\n', '😀', ' ']
    let ss : List Selection := [.cursor ⟨1, 2⟩, .cursor ⟨0, 1⟩, .cursor ⟨1, 2⟩]
    let inserted : Text := ['a', '𝄆', ')', '\r', '\n', '😀', '𝄆', ')', '𝄆', ')', ' ']
    ∃ plan, openPair (ofText text).source ss '𝄆' ')' = .edit plan
      ∧ plan.selections = [.cursor ⟨0, 3⟩, .cursor ⟨1, 4⟩, .cursor ⟨1, 7⟩]
      ∧ plan.apply text = .ok inserted
      ∧ text.Land inserted ['𝄆'] plan.edits plan.selections := by
  intro text ss inserted
  have hplan : openPair (ofText text).source ss '𝄆' ')'
      = .edit ⟨[insert ⟨0, 1⟩ ['𝄆', ')'], insert ⟨1, 2⟩ ['𝄆', ')'], insert ⟨1, 2⟩ ['𝄆', ')']],
        [.cursor ⟨0, 3⟩, .cursor ⟨1, 4⟩, .cursor ⟨1, 7⟩]⟩ := by cbv
  obtain ⟨-, u, happly, hu, hland⟩ := openPair_inserts (ofText text) ss _ (by simp)
    (by decide) (by decide +kernel) hplan (by simp)
  have hinserted : u = inserted := hu.trans (by decide +kernel)
  rw [hinserted] at happly hland
  exact ⟨_, hplan, rfl, happly, hland (by decide +kernel)⟩

/-! ## Removed pairs -/

namespace Text

/-- **An empty pair lies around a position**: one of those that backspace takes as
one, in the two columns next to it. -/
def EmptyPairAt (t : Text) (p : Position) : Prop :=
  ∃ before pair after, t.line p.line.toNat = before ++ pair ++ after ∧ pair ∈ emptyPairs
    ∧ p.column.toNat = before.width + 1 ∧ (p.column + 1).toNat = Text.width (before ++ pair)

/-- **Every carriage return belongs to the end of a line**: a line feed comes
after it. -/
def ReturnsEndLines (t : Text) : Prop :=
  ∀ i < t.length, t[i]? = some '\r' → t[i + 1]? = some '\n'

instance (t : Text) : Decidable t.ReturnsEndLines := Nat.decidableBallLT _ _

/-- Before anything but a line feed there is no carriage return then. -/
theorem ReturnsEndLines.getLast?_ne {s rest : Text} {c : Char}
    (h : ReturnsEndLines (s ++ c :: rest)) (hc : c ≠ '\n') : s.getLast? ≠ some '\r' := by
  intro hlast
  obtain ⟨s, rfl⟩ := List.getLast?_eq_some_iff.1 hlast
  have hnext := h s.length (by simp) (by simp)
  simp [hc] at hnext

/-- The line a text ends on ends as the text does. -/
theorem getLast?_of_lastLine {s : Text} {c : Char} (h : s.lastLine.getLast? = some c) :
    s.getLast? = some c := by
  rcases s.eq_lastLine_or_exists.2 with heq | ⟨r, heq⟩
  · rwa [heq]
  · rw [heq, List.getLast?_append, List.getLast?_cons, h]
    rfl

end Text

/-- The characters of a pair that backspace takes as one. -/
theorem exists_of_mem_emptyPairs {pair : Text} (h : pair ∈ emptyPairs) :
    ∃ x y, pair = [x, y] ∧ '\n' ∉ [x, y] ∧ Text.width [x, y] = 2 := by
  simp only [emptyPairs, List.mem_cons, List.not_mem_nil, or_false] at h
  rcases h with rfl | rfl | rfl | rfl | rfl <;> exact ⟨_, _, rfl, by decide, rfl⟩

namespace Text.EmptyPairAt

/-- The columns around a position in a pair. -/
theorem toNat_column (h : t.EmptyPairAt p) :
    (p.column - 1).toNat + 1 = p.column.toNat ∧ (p.column + 1).toNat = p.column.toNat + 1 := by
  obtain ⟨before, pair, after, -, hpair, hcolumn, hstop⟩ := h
  obtain ⟨x, y, rfl, -, hwidth⟩ := exists_of_mem_emptyPairs hpair
  have hone : (1 : UInt32).toNat = 1 := rfl
  rw [width_append, hwidth] at hstop
  rw [UInt32.toNat_sub_of_le _ _ (UInt32.le_iff_toNat_le.2 (by omega))]
  omega

/-- **The pair around a position** starts between two characters, and what comes
before its end is what comes before its start and the pair. -/
theorem exists_take (h : t.EmptyPairAt p) (hline : p.line.toNat < t.segments.length) :
    t.AtBoundary (removePair p).start ∧ ∃ x y, '\n' ∉ [x, y] ∧ Text.width [x, y] = 2
      ∧ t.take (t.charsBefore (removePair p).start) ++ [x, y]
        = t.take (t.charsBefore (removePair p).stop) := by
  have hcolumns := h.toNat_column
  obtain ⟨before, pair, after, hsplit, hpair, hcolumn, hstop⟩ := h
  obtain ⟨x, y, rfl, hnot, hwidth⟩ := exists_of_mem_emptyPairs hpair
  have hstart : (p.column - 1).toNat = before.width := by omega
  have hbefore : (t.line p.line.toNat).take
      ((t.line p.line.toNat).index (p.column - 1).toNat) = before := by
    rw [hstart, hsplit, List.append_assoc, take_index_width_append]
  have hafter : (t.line p.line.toNat).take
      ((t.line p.line.toNat).index (p.column + 1).toNat) = before ++ [x, y] := by
    rw [hstop, hsplit, take_index_width_append]
  refine ⟨?_, x, y, hnot, hwidth, ?_⟩
  · show width (List.take _ _) = _
    rw [show (removePair p).start.line = p.line from rfl,
      show (removePair p).start.column = p.column - 1 from rfl, hbefore, hstart]
  · rw [take_charsBefore (p := (removePair p).start) hline,
      take_charsBefore (p := (removePair p).stop) hline,
      show (removePair p).start = ⟨p.line, p.column - 1⟩ from rfl,
      show (removePair p).stop = ⟨p.line, p.column + 1⟩ from rfl, hbefore, hafter,
      List.append_assoc]

end Text.EmptyPairAt

/-- Backspace finds the pairs around positions. -/
theorem inEmptyPair_iff {source : TokenSource}
    (hsource : ∀ line, source.lineText line = t.line line.toNat) :
    source.inEmptyPair p ↔ t.EmptyPairAt p := by
  constructor
  · intro h
    obtain ⟨x, y, before, after, hpair, hx, hy, hline, -, hcolumn, hstop⟩ :=
      TokenSource.exists_of_inEmptyPair h
    refine ⟨before, [x, y], after, ?_, hpair, hcolumn, ?_⟩
    · rw [← hsource, hline]
      simp
    · rw [hstop, width_append, width_cons, width_cons, hx, hy]
      rfl
  · intro h
    have hcolumns := h.toNat_column
    obtain ⟨before, pair, after, hline, hpair, hcolumn, hstop⟩ := h
    have hne : p.column ≠ 0 := by
      intro hzero
      rw [hzero] at hcolumn
      exact absurd hcolumn (Nat.succ_ne_zero _).symm
    have hstart : (p.column - 1).toNat = before.width := by omega
    rw [TokenSource.inEmptyPair, Bool.and_eq_true, decide_eq_true_eq, hsource, hline, hstart, hstop,
      width_append, slice_append_append]
    exact ⟨hne, List.contains_iff_mem.2 hpair⟩

/-- The pair around a position starts right before it and stops right after it. -/
theorem Text.EmptyPairAt.rank (h : t.EmptyPairAt p) :
    (removePair p).start.rank + 1 = p.rank ∧ (removePair p).stop.rank = p.rank + 1 := by
  have hcolumns := h.toNat_column
  show p.line.toNat * 2 ^ 32 + (p.column - 1).toNat + 1 = p.line.toNat * 2 ^ 32 + p.column.toNat
    ∧ p.line.toNat * 2 ^ 32 + (p.column + 1).toNat = p.line.toNat * 2 ^ 32 + p.column.toNat + 1
  omega

/-- **A pair is removed or folds into the last one removed before it.** By
induction on the positions in order, where `q` is the last one whose pair is
removed. -/
theorem exists_last_of_mem_keptPairs (hps : ∀ p ∈ q :: ps, t.EmptyPairAt p)
    (horder : (q :: ps).Pairwise fun p r => p.rank ≤ r.rank) (hp : p ∈ q :: ps) :
    ∃ before r after, q :: keptPairs (some (removePair q).stop) ps = before ++ r :: after
      ∧ (r = p ∨ (removePair r).start < (removePair p).start
          ∧ (removePair p).start < (removePair r).stop)
      ∧ ∀ s ∈ after, (removePair p).start < (removePair s).start := by
  simp only [Position.lt_iff_rank_lt]
  induction ps generalizing q with
  | nil =>
    obtain rfl := List.mem_singleton.1 hp
    exact ⟨[], p, [], rfl, .inl rfl, nofun⟩
  | cons r ps ih =>
    obtain ⟨hq, hrest⟩ := List.forall_mem_cons.1 hps
    obtain ⟨hr, hps'⟩ := List.forall_mem_cons.1 hrest
    obtain ⟨hle, horder'⟩ := List.pairwise_cons.1 horder
    have hranks := fun s (hs : t.EmptyPairAt s) => hs.rank
    have hlater : ∀ {x : Position}, ∀ s ∈ keptPairs (some (removePair x).stop) ps,
        (removePair x).stop.rank ≤ (removePair s).start.rank :=
      fun s hs => le_of_mem_keptPairs (fun s hs => by
        have := hranks s (hps' s hs)
        omega) hs
    have hqr := hle r List.mem_cons_self
    have hq₁ := hq.rank
    have hr₁ := hr.rank
    rw [keptPairs]
    split_ifs with hlt
    · rw [Option.any_some, decide_eq_true_eq, Position.lt_iff_rank_lt] at hlt
      change (removePair r).start.rank < (removePair q).stop.rank at hlt
      by_cases hpr : p = r
      · -- `r` folds into `q`, unless the two coincide
        subst hpr
        refine ⟨[], q, _, rfl, ?_, fun s hs => hlt.trans_le (hlater s hs)⟩
        by_cases heq : q = p
        · exact .inl heq
        · rw [← Position.rank_inj] at heq
          exact .inr ⟨by omega, hlt⟩
      · refine ih (List.forall_mem_cons.2 ⟨hq, hps'⟩) ?_ ?_
        · exact List.pairwise_cons.2 ⟨fun s hs => hle s (List.mem_cons_of_mem r hs),
            (List.pairwise_cons.1 horder').2⟩
        · simpa [hpr] using hp
    · rw [Option.any_some, decide_eq_true_eq, Position.lt_iff_rank_lt, Nat.not_lt] at hlt
      change (removePair q).stop.rank ≤ (removePair r).start.rank at hlt
      rcases List.mem_cons.1 hp with rfl | hp
      · refine ⟨[], p, _, rfl, .inl rfl, List.forall_mem_cons.2 ⟨by omega, fun s hs => ?_⟩⟩
        have := hlater (x := r) s hs
        omega
      · obtain ⟨before, s, after, hsplit, hlast⟩ := ih hrest horder' hp
        exact ⟨q :: before, s, after, congrArg (q :: ·) hsplit, hlast⟩

/-- **The cursors of removed pairs land where the pairs were.** By induction on the
pairs, where the part of the new text up to the last pair has shrunk from that of
the old text by the log. The last character of that part is never a carriage
return, since the first of a pair came after it. -/
theorem land_removalCursors {front moved : Text} (hreturns : t.ReturnsEndLines)
    (hlength : u.segments.length = t.segments.length)
    (hps : ∀ p ∈ ps, p.line < .ofNat t.segments.length ∧ t.EmptyPairAt p)
    (hascending : Ascending (ps.map removePair)) (hgrown : Grown moved front log)
    (hlast : moved.getLast? ≠ some '\r')
    (hfront : ∀ p ∈ ps.head?, front <+: t.take (t.charsBefore (removePair p).start))
    (hu : u = moved ++ t.spliced front.byteSize (ps.map removePair)) :
    t.Land u [] (ps.map removePair) (removalCursors log ps) := by
  induction ps generalizing front moved log with
  | nil => exact .nil
  | cons p ps ih =>
    obtain ⟨⟨hline, hp⟩, hps⟩ := List.forall_mem_cons.1 hps
    obtain ⟨gap, hgap⟩ := hfront p rfl
    obtain ⟨hboundary, x, y, hnot, hwidth, hpair⟩ := hp.exists_take (toNat_lt_of_lt_ofNat hline)
    have hmark := marks_take_charsBefore (p := (removePair p).start)
      (toNat_lt_of_lt_ofNat hline) hboundary
    have hstop : (removePair p).stopByte t
        = byteSize (t.take (t.charsBefore (removePair p).stop)) :=
      (stop_locate (hascending.start_le_stop _ List.mem_cons_self) t).trans
        (offset_eq_byteAt t _)
    have htext : front ++ gap ++ x :: (y :: t.drop (t.charsBefore (removePair p).stop)) = t := by
      conv_rhs => rw [← List.take_append_drop (t.charsBefore (removePair p).stop) t, ← hpair, ← hgap]
      simp
    rw [← hgap] at hmark hpair
    have hcopied := hgrown.append gap
    have hcursor := hcopied.marks_back hmark
    have hremoved : Grown (moved ++ gap) (front ++ gap ++ [x, y]) ((p.line, 2) :: log) :=
      hcopied.insert (p := ⟨p.line, p.column - 1 - log.on p.line⟩) hcursor hnot hwidth
    have hlast' : (moved ++ gap).getLast? ≠ some '\r' := by
      rcases List.eq_nil_or_concat' gap with rfl | ⟨gap, c, rfl⟩
      · rwa [List.append_nil]
      · have hbefore := (htext ▸ hreturns).getLast?_ne fun heq => hnot (heq ▸ List.mem_cons_self)
        rw [← List.append_assoc, List.getLast?_concat] at hbefore ⊢
        exact hbefore
    have hgoes (rest : Text) : GoesOn (moved ++ gap) rest :=
      .inr fun h => hlast' (getLast?_of_lastLine h)
    rw [List.map_cons, spliced_cons hgap] at hu
    have hsplit : u = moved ++ gap ++ [] ++ ([]
        ++ t.spliced ((removePair p).stopByte t) (ps.map removePair)) := by
      rw [hu]
      show _ ++ (_ ++ [] ++ _) = _
      simp
    refine .cons (Marks.landsIn (moved ++ gap) [] ?_ rfl hsplit ?_ (hlength ▸ hline))
      (ih hps hascending.tail hremoved hlast' ?_ ?_)
    · rwa [List.append_nil]
    · rw [List.append_nil]
      exact hgoes _
    · rw [hpair]
      exact fun q hq => List.take_prefix_take_left (charsBefore_mono
        ((List.pairwise_cons.1 hascending.pairwise).1 _
          (List.mem_map_of_mem (List.mem_of_mem_head? hq))))
    · rw [hsplit, hstop, hpair]
      simp

/-- **Backspace removes empty pairs, and no more.** Given selections within the
buffer in any order, it plans an edit exactly when there are some and each is a
cursor with an empty pair around it. What it removes are pairs around cursors, in
ascending order and disjoint; the last of them that starts no later than the pair
of a cursor is that pair, or overlaps it. The plan applies. Where every carriage
return is followed by a line feed, the planned cursors land where the pairs
were. -/
theorem Document.backspace_removes (d : Document) (ss : List Selection)
    (hreturns : d.text.ReturnsEndLines)
    (hinside : ∀ s ∈ ss, d.contains s.anchor ∧ d.contains s.head) :
    ((∃ plan, backspace d.source ss = .edit plan)
      ↔ ss ≠ [] ∧ ∀ s ∈ ss, s.isEmpty ∧ d.text.EmptyPairAt s.head)
    ∧ ∀ plan, backspace d.source ss = .edit plan →
      (∀ e ∈ plan.edits, e.start < e.stop ∧ ∃ s ∈ ss, e = removePair s.head)
      ∧ plan.edits.Pairwise (fun e f => e.stop ≤ f.start)
      ∧ (∀ s ∈ ss, ∃ before e after, plan.edits = before ++ e :: after
        ∧ (e = removePair s.head ∨ e.start < (removePair s.head).start
            ∧ (removePair s.head).start < e.stop)
        ∧ ∀ f ∈ after, (removePair s.head).start < f.start)
      ∧ ∃ u, plan.apply d.text = .ok u ∧ u = d.text.spliced 0 plan.edits
        ∧ d.text.Land u [] plan.edits plan.selections := by
  have hsource : ∀ line, d.source.lineText line = d.text.line line.toNat := d.lineText_eq_line
  simp only [← inEmptyPair_iff hsource]
  have hreach : ∀ s ∈ ss, d.text.Reach [] s.anchor ∧ d.text.Reach [] s.head :=
    fun s hs => (hinside s hs).imp Document.reach_of_contains Document.reach_of_contains
  refine ⟨?_, fun plan hplan => ?_⟩
  · unfold backspace
    split_ifs with h
    · exact ⟨fun _ => h, fun _ => ⟨_, rfl⟩⟩
    · exact ⟨fun ⟨_, hpass⟩ => absurd hpass nofun, fun hpairs => absurd hpairs h⟩
  · obtain ⟨htracks, -⟩ := tracks_backspace hsource hreach hplan
    obtain ⟨happly, hlength⟩ := htracks.apply_ok
    unfold backspace at hplan
    split_ifs at hplan with hpairs
    obtain rfl := KeyOutcome.edit.inj hplan
    have horder := pairwise_heads fun s hs => (hpairs.2 s hs).1
    have hheads : ∀ p ∈ (Selection.sortByStart ss).map (·.head),
        p.line < .ofNat d.text.segments.length ∧ d.text.EmptyPairAt p := by
      intro p hp
      obtain ⟨s, hs, rfl⟩ := List.mem_map.1 hp
      rw [Selection.mem_sortByStart] at hs
      exact ⟨(hreach s hs).2.1, (inEmptyPair_iff hsource).1 (hpairs.2 s hs).2⟩
    have hmem : ∀ s ∈ ss, s.head ∈ (Selection.sortByStart ss).map (·.head) :=
      fun s hs => List.mem_map_of_mem (Selection.mem_sortByStart.2 hs)
    refine ⟨fun e he => ?_, htracks.ascending.pairwise.imp Position.le_iff_rank_le.2,
      fun s hs => ?_, _, happly, rfl, ?_⟩
    · obtain ⟨p, hp, rfl⟩ := List.mem_map.1 he
      obtain ⟨s, hs, rfl⟩ := List.mem_map.1 (mem_of_mem_keptPairs hp)
      have hranks := (hheads _ (mem_of_mem_keptPairs hp)).2.rank
      refine ⟨Position.lt_iff_rank_lt.2 ?_, s, Selection.mem_sortByStart.1 hs, rfl⟩
      show (removePair s.head).start.rank < (removePair s.head).stop.rank
      omega
    · replace hmem := hmem s hs
      generalize (Selection.sortByStart ss).map (·.head) = ps at horder hheads hmem ⊢
      cases ps with
      | nil => exact absurd hmem List.not_mem_nil
      | cons q ps =>
        obtain ⟨before, r, after, hsplit, hfolds, hlast⟩ :=
          exists_last_of_mem_keptPairs (fun p hp => (hheads p hp).2) horder hmem
        refine ⟨before.map removePair, removePair r, after.map removePair, ?_,
          hfolds.imp_left (congrArg removePair), List.forall_mem_map.2 hlast⟩
        rw [← List.map_cons, ← List.map_append, ← hsplit]
        rfl
    · exact land_removalCursors hreturns hlength (fun p hp => hheads p (mem_of_mem_keptPairs hp))
        htracks.ascending (grown_nil []) nofun (fun p _ => List.nil_prefix) rfl

/-- Five cursors out of order on two lines: two of them coincide, and two others lie
in overlapping pairs of one run of quotes. -/
theorem Document.backspace_removes_overlapping :
    let text : Text := ['"', '"', '"', ' ', '(', ')', '\r', '\n', '{', '}']
    let ss : List Selection :=
      [.cursor ⟨1, 1⟩, .cursor ⟨0, 5⟩, .cursor ⟨0, 2⟩, .cursor ⟨0, 1⟩, .cursor ⟨0, 5⟩]
    let removed : Text := ['"', ' ', '\r', '\n']
    ∃ plan, backspace (ofText text).source ss = .edit plan
      ∧ plan.edits = [removePair ⟨0, 1⟩, removePair ⟨0, 5⟩, removePair ⟨1, 1⟩]
      ∧ plan.selections = [.cursor ⟨0, 0⟩, .cursor ⟨0, 2⟩, .cursor ⟨1, 0⟩]
      ∧ plan.apply text = .ok removed
      ∧ text.Land removed [] plan.edits plan.selections := by
  intro text ss removed
  have hplan : backspace (ofText text).source ss
      = .edit ⟨[removePair ⟨0, 1⟩, removePair ⟨0, 5⟩, removePair ⟨1, 1⟩],
        [.cursor ⟨0, 0⟩, .cursor ⟨0, 2⟩, .cursor ⟨1, 0⟩]⟩ := by cbv
  obtain ⟨-, -, -, u, happly, hu, hland⟩ :=
    (backspace_removes (ofText text) ss (by decide) (by decide +kernel)).2 _ hplan
  have hremoved : u = removed := hu.trans (by decide +kernel)
  rw [hremoved] at happly hland
  exact ⟨_, hplan, rfl, rfl, happly, hland⟩

end EditorCore
