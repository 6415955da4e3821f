import EditorCore.Proofs.Edit.Ascending

/-!
# Edits line by line

The edits of a plan are made on the text as a whole, by byte offsets, from
the last to the first. When each of them stays on its line, adds no line and
starts no earlier than the one before it stops, they might as well be made on
every line by itself: the number of lines does not change, and the segment of
a line becomes what the edits on that line make of it
(`Text.segment_foldr_replace`).

What an edit leaves of a line is a first part and a last part of it. The last
part still has the ending of the line, so widths can be accounted for line by
line (`Text.width_edited`) – except that the last character of what is left
may be a carriage return that was no ending before.
-/

namespace EditorCore

namespace Text

variable {t u : Text} {i : Nat}

/-! ## Replacing a part of a line -/

/-- A first part of a line is one of its segment. -/
theorem take_segment {n : Nat} (hn : n ≤ (t.line i).length) :
    (t.segment i).take n = (t.line i).take n := by
  rw [← line_append_ending t i, List.take_append_of_le_length hn]

/-- Up to a character of a line, a text is what comes before the line and
the first part of it. -/
theorem take_before_add (h : i < t.segments.length) {n : Nat} (hn : n ≤ (t.segment i).length) :
    t.take ((t.before i).length + n) = t.before i ++ (t.segment i).take n := by
  conv_lhs =>
    enter [2]
    rw [← before_append_segment_append_after h, List.append_assoc]
  rw [List.take_length_add_append, List.take_append_of_le_length hn]

/-- From a character of a line on, a text is the last part of the line and
what comes after it. -/
theorem drop_before_add (h : i < t.segments.length) {n : Nat} (hn : n ≤ (t.segment i).length) :
    t.drop ((t.before i).length + n) = (t.segment i).drop n ++ t.after i := by
  conv_lhs =>
    enter [2]
    rw [← before_append_segment_append_after h, List.append_assoc]
  rw [List.drop_length_add_append, List.drop_append_of_le_length hn]

/-- Another segment in the place of one. -/
theorem segments_before_append_after (h : i < t.segments.length) {g : Text} (hg : '\n' ∉ g) :
    segments (t.before i ++ g ++ t.after i) = t.segments.set i g := by
  have hset : t.segments.set i g = t.segments.take i ++ g :: t.segments.drop (i + 1) := by
    rw [List.set_eq_take_append_cons_drop, if_pos h]
  rw [before, after, ← intercalate_append_cons, hset]
  refine segments_intercalate (by simp) fun f hf => ?_
  rcases List.mem_append.1 hf with hf | hf
  · exact not_mem_of_mem_segments (List.mem_of_mem_take hf)
  · rcases List.mem_cons.1 hf with rfl | hf
    · exact hg
    · exact not_mem_of_mem_segments (List.mem_of_mem_drop hf)

/-- **Replacing a part of a line replaces that part of its segment.** -/
theorem segments_replace (h : i < t.segments.length) {a b : Nat}
    (ha : a ≤ (t.segment i).length) (hb : b ≤ (t.segment i).length) {s : Text}
    (hs : '\n' ∉ s) :
    segments (t.take ((t.before i).length + a) ++ s ++ t.drop ((t.before i).length + b))
      = t.segments.set i ((t.segment i).take a ++ s ++ (t.segment i).drop b) := by
  rw [take_before_add h ha, drop_before_add h hb, ← segments_before_append_after h]
  · simp only [List.append_assoc]
  · have hnot := not_mem_segment t i
    simp only [List.mem_append, not_or]
    exact ⟨⟨fun hm => hnot (List.mem_of_mem_take hm), hs⟩,
      fun hm => hnot (List.mem_of_mem_drop hm)⟩

/-- Texts with the same first segments have the same text before a line. -/
theorem before_congr (hu : i ≤ u.segments.length) (ht : i ≤ t.segments.length)
    (h : ∀ j < i, u.segment j = t.segment j) : u.before i = t.before i := by
  induction i with
  | zero => rfl
  | succ i ih =>
    rw [before_succ hu, before_succ ht, h i (Nat.lt_succ_self i),
      ih (Nat.le_of_succ_le hu) (Nat.le_of_succ_le ht) fun j hj => h j (Nat.lt_succ_of_lt hj)]

theorem segment_of_segments_eq_set {g : Text} (h : u.segments = t.segments.set i g)
    (hi : i < t.segments.length) (j : Nat) : u.segment j = if j = i then g else t.segment j := by
  rw [segment, h, List.getD_eq_getElem?_getD, List.getElem?_set]
  split_ifs with heq hne hne
  · rfl
  · exact absurd heq.symm hne
  · exact absurd hne.symm heq
  · rw [segment, List.getD_eq_getElem?_getD]

end Text

namespace TextEdit

/-- **An edit within a line of a text**, which stays one line: its columns
are those of the part it replaces. -/
structure Within (t : Text) (e : TextEdit) : Prop where
  same_line : e.stop.line = e.start.line
  line_lt : e.start.line.toNat < t.segments.length
  no_newline : '\n' ∉ e.newText
  exact : Text.width ((t.line e.start.line.toNat).take
      ((t.line e.start.line.toNat).index e.stop.column.toNat))
    = Text.width ((t.line e.start.line.toNat).take
        ((t.line e.start.line.toNat).index e.start.column.toNat))
      + (e.stop.column.toNat - e.start.column.toNat)

/-- The edits are on one line each. -/
def SameLine (es : List TextEdit) : Prop := ∀ e ∈ es, e.stop.line = e.start.line

theorem SameLine.tail {e : TextEdit} {es : List TextEdit} (h : SameLine (e :: es)) :
    SameLine es := fun f hf => h f (List.mem_cons_of_mem e hf)

end TextEdit

namespace Position

/-- On one line the order is that of the columns. -/
theorem column_le_of_rank_le {p q : Position} (hline : p.line = q.line) (h : p.rank ≤ q.rank) :
    p.column.toNat ≤ q.column.toNat := by
  unfold rank at h
  rw [hline] at h
  exact Nat.le_of_add_le_add_left h

end Position

namespace Text

open TextEdit

variable {t u : Text} {i : Nat} {e : TextEdit} {es : List TextEdit}

/-! ## The edits of one line -/

/-- **What edits make of the segment of a line**, the last one first. Their
columns refer to the line as it is before all of them. -/
def edited (t : Text) (i : Nat) : List TextEdit → Text
  | [] => t.segment i
  | e :: es =>
    if e.start.line.toNat = i then
      (t.edited i es).take ((t.line i).index e.start.column.toNat) ++ e.newText
        ++ (t.edited i es).drop ((t.line i).index e.stop.column.toNat)
    else t.edited i es

theorem edited_cons_of_eq (h : e.start.line.toNat = i) :
    t.edited i (e :: es)
      = (t.edited i es).take ((t.line i).index e.start.column.toNat) ++ e.newText
        ++ (t.edited i es).drop ((t.line i).index e.stop.column.toNat) := if_pos h

theorem edited_cons_of_ne (h : e.start.line.toNat ≠ i) :
    t.edited i (e :: es) = t.edited i es := if_neg h

/-- A line without edits stays as it is. -/
theorem edited_eq_segment (h : ∀ e ∈ es, e.start.line.toNat ≠ i) :
    t.edited i es = t.segment i := by
  induction es with
  | nil => rfl
  | cons e es ih =>
    obtain ⟨he, hes⟩ := List.forall_mem_cons.1 h
    rw [edited_cons_of_ne he, ih hes]

/-- A first part begins with a shorter one. -/
theorem take_eq_take_append {g : Text} {a b : Nat} (hab : a ≤ b) :
    g.take b = g.take a ++ (g.take b).drop a := by
  conv_lhs => rw [← List.take_append_drop a (g.take b), List.take_take, Nat.min_eq_left hab]

/-- Replacing a part between the first part of a text and the rest. -/
theorem take_append_drop_of_le {g v : Text} {a b : Nat} (hab : a ≤ b) (hb : b ≤ g.length)
    (s : Text) :
    (g.take b ++ v).take a ++ s ++ (g.take b ++ v).drop b = g.take a ++ s ++ v := by
  have hlen : (g.take b).length = b := List.length_take_of_le hb
  rw [List.take_append_of_le_length (hlen.symm ▸ hab), List.take_take, Nat.min_eq_left hab,
    List.drop_left' hlen]

/-- On a line, an edit replaces characters in order. -/
theorem index_start_le (h : Ascending (e :: es)) (hline : SameLine (e :: es)) :
    (t.line i).index e.start.column.toNat ≤ (t.line i).index e.stop.column.toNat := by
  refine index_mono _ (Position.column_le_of_rank_le ?_ (h.start_le_stop e List.mem_cons_self))
  exact (hline e List.mem_cons_self).symm

/-- On a line, a later edit replaces later characters. -/
theorem index_stop_le (h : Ascending (e :: es)) (hline : SameLine (e :: es))
    (he : e.start.line.toNat = i) {f : TextEdit} (hf : f ∈ es) (hi : f.start.line.toNat = i) :
    (t.line i).index e.stop.column.toNat ≤ (t.line i).index f.start.column.toNat := by
  refine index_mono _ (Position.column_le_of_rank_le ?_ ((List.pairwise_cons.1 h.pairwise).1 f hf))
  rw [hline e List.mem_cons_self, ← UInt32.toNat_inj, he, hi]

/-- **Edits leave a first and a last part of a line**, those outside which
none of them reaches. -/
theorem exists_edited_eq (h : Ascending es) (hline : SameLine es) {a b : Nat} (hab : a ≤ b)
    (hb : b ≤ (t.segment i).length)
    (ha : ∀ e ∈ es, e.start.line.toNat = i → a ≤ (t.line i).index e.start.column.toNat)
    (hstop : ∀ e ∈ es, e.start.line.toNat = i → (t.line i).index e.stop.column.toNat ≤ b) :
    ∃ m, t.edited i es = (t.segment i).take a ++ (m ++ (t.segment i).drop b) := by
  induction es generalizing a with
  | nil =>
    refine ⟨((t.segment i).take b).drop a, ?_⟩
    rw [← List.append_assoc, ← take_eq_take_append hab, List.take_append_drop]
    rfl
  | cons e es ih =>
    obtain ⟨hea, hesa⟩ := List.forall_mem_cons.1 ha
    obtain ⟨heb, hesb⟩ := List.forall_mem_cons.1 hstop
    by_cases he : e.start.line.toNat = i
    · -- after the later edits the line is whole up to where `e` stops
      obtain ⟨m, hm⟩ := ih h.tail hline.tail (heb he)
        (fun f hf hi => index_stop_le h hline he hf hi) hesb
      rw [edited_cons_of_eq he, hm,
        take_append_drop_of_le (index_start_le h hline) ((heb he).trans hb)]
      refine ⟨((t.segment i).take ((t.line i).index e.start.column.toNat)).drop a
        ++ e.newText ++ m, ?_⟩
      conv_lhs => rw [take_eq_take_append (hea he)]
      simp only [List.append_assoc]
    · rw [edited_cons_of_ne he]
      exact ih h.tail hline.tail hab hesa hesb

/-- **One edit more**: the part of the line that it replaces is still there
after the later edits, and so is the part before it. -/
theorem exists_edited_cons (h : Ascending (e :: es)) (hline : SameLine (e :: es))
    (he : e.start.line.toNat = i) :
    ∃ v, t.edited i es = (t.segment i).take ((t.line i).index e.stop.column.toNat) ++ v
      ∧ t.edited i (e :: es)
        = (t.segment i).take ((t.line i).index e.start.column.toNat) ++ e.newText ++ v := by
  have hb := (index_le_length (t.line i) e.stop.column.toNat).trans (length_line_le t i)
  obtain ⟨m, hm⟩ := exists_edited_eq h.tail hline.tail hb (Nat.le_refl _)
    (fun f hf hi => index_stop_le h hline he hf hi)
    (fun f _ _ => (index_le_length (t.line i) f.stop.column.toNat).trans (length_line_le t i))
  refine ⟨_, hm, ?_⟩
  rw [edited_cons_of_eq he, hm, take_append_drop_of_le (index_start_le h hline) hb]

/-! ## The text after the edits -/

/-- Before the first edit the text is as it was. -/
theorem before_eq_of_ascending (h : Ascending (e :: es)) (hline : SameLine (e :: es))
    (hlen : u.segments.length = t.segments.length) (hseg : ∀ j, u.segment j = t.edited j es)
    (hlt : e.start.line.toNat < t.segments.length) :
    u.before e.start.line.toNat = t.before e.start.line.toNat := by
  refine before_congr (hlen ▸ hlt.le) hlt.le fun j hj => ?_
  -- an edit on an earlier line would start before `e` does
  rw [hseg, edited_eq_segment fun f hf hf' => ?_]
  have hle := (List.pairwise_cons.1 h.pairwise).1 f hf
  have hcolumn := f.start.column.toNat_lt
  unfold Position.rank at hle
  rw [hline e List.mem_cons_self, hf'] at hle
  omega

/-- A character of a line lies at the same byte of two texts that agree up to
it. -/
theorem byteAt_before_add_congr (hu : i < u.segments.length) (ht : i < t.segments.length)
    (hbefore : u.before i = t.before i) {b n : Nat} {v : Text} (hb : b ≤ (t.segment i).length)
    (hseg : u.segment i = (t.segment i).take b ++ v) (hn : n ≤ b) :
    n ≤ (u.segment i).length
      ∧ t.byteAt ((t.before i).length + n) = u.byteAt ((u.before i).length + n) := by
  have hlen : ((t.segment i).take b).length = b := List.length_take_of_le hb
  have hle : n ≤ (u.segment i).length := by
    rw [hseg, List.length_append, hlen]
    exact hn.trans (Nat.le_add_right b _)
  refine ⟨hle, ?_⟩
  rw [byteAt, byteAt, take_before_add ht (hn.trans hb), take_before_add hu hle, hbefore, hseg,
    List.take_append_of_le_length (hlen.symm ▸ hn), List.take_take, Nat.min_eq_left hn]

/-- What comes before a line, with a first part of its segment, is part of
the text. -/
theorem length_before_add_le (h : i < t.segments.length) {n : Nat}
    (hn : n ≤ (t.segment i).length) : (t.before i).length + n ≤ t.length := by
  have hsplit := congrArg List.length (before_append_segment_append_after h)
  rw [List.length_append, List.length_append] at hsplit
  omega

/-- The offset of a position on a line of the text. -/
theorem offset_eq_byteAt_before_add {p : Position} (h : p.line.toNat < t.segments.length) :
    t.offset p = t.byteAt ((t.before p.line.toNat).length
      + (t.line p.line.toNat).index p.column.toNat) := by
  rw [offset_eq_byteAt, charsBefore_of_lt h]

/-- **Made on the whole text, edits change every line by itself.** -/
theorem segment_foldr_replace (h : Ascending es) (hes : ∀ e ∈ es, e.Within t) :
    ((es.map (·.locate t)).foldr Splice.replace t).segments.length = t.segments.length
      ∧ ∀ i, ((es.map (·.locate t)).foldr Splice.replace t).segment i = t.edited i es := by
  induction es with
  | nil => exact ⟨rfl, fun _ => rfl⟩
  | cons e es ih =>
    obtain ⟨he, hes'⟩ := List.forall_mem_cons.1 hes
    have hline : SameLine (e :: es) := fun f hf => (hes f hf).same_line
    obtain ⟨hlen, hseg⟩ := ih h.tail hes'
    rw [List.map_cons, List.foldr_cons]
    generalize (es.map (·.locate t)).foldr Splice.replace t = u at hlen hseg ⊢
    have hlt := he.line_lt
    have hlt' : e.start.line.toNat < u.segments.length := hlen ▸ hlt
    have hbefore := before_eq_of_ascending h hline hlen hseg hlt
    obtain ⟨v, hv, -⟩ := exists_edited_cons h hline (t := t) rfl
    rw [← hseg] at hv
    -- up to where the edit stops, `u` is still what the text was
    have hbound := (index_le_length (t.line e.start.line.toNat) e.stop.column.toNat).trans
      (length_line_le t _)
    obtain ⟨ha, hastart⟩ :=
      byteAt_before_add_congr hlt' hlt hbefore hbound hv (index_start_le h hline)
    obtain ⟨hb, hbstop⟩ :=
      byteAt_before_add_congr hlt' hlt hbefore hbound hv (Nat.le_refl _)
    rw [← offset_eq_byteAt_before_add hlt] at hastart
    have hstop := offset_eq_byteAt_before_add (p := e.stop) (he.same_line.symm ▸ hlt)
    rw [he.same_line, hbstop, ← stop_locate (h.start_le_stop e List.mem_cons_self)] at hstop
    have hset := segments_replace hlt' ha hb he.no_newline
    rw [← takeBytes_byteAt (length_before_add_le hlt' ha),
      ← dropBytes_byteAt (length_before_add_le hlt' hb), ← hastart, ← hstop] at hset
    change ((e.locate t).replace u).segments = _ at hset
    refine ⟨?_, fun i => ?_⟩
    · rw [hset, List.length_set, hlen]
    · rw [segment_of_segments_eq_set hset hlt', hseg, hseg]
      by_cases hi : i = e.start.line.toNat
      · rw [if_pos hi, hi, edited_cons_of_eq rfl]
      · rw [if_neg hi, edited_cons_of_ne (Ne.symm hi)]

end Text

namespace TextEdit

/-! ## What edits add to a line and take from it -/

/-- The sum of a size over the edits on a line. -/
def sumOn (size : TextEdit → Nat) (i : Nat) : List TextEdit → Nat
  | [] => 0
  | e :: es => (if e.start.line.toNat = i then size e else 0) + sumOn size i es

theorem sumOn_cons_self (size : TextEdit → Nat) (e : TextEdit) (es : List TextEdit) :
    sumOn size e.start.line.toNat (e :: es) = size e + sumOn size e.start.line.toNat es :=
  congrArg (· + _) (if_pos rfl)

theorem sumOn_cons_of_ne (size : TextEdit → Nat) {i : Nat} {e : TextEdit} {es : List TextEdit}
    (h : e.start.line.toNat ≠ i) : sumOn size i (e :: es) = sumOn size i es := by
  rw [sumOn, if_neg h, Nat.zero_add]

/-- The width that edits add to a line. -/
def inserted : Nat → List TextEdit → Nat := sumOn fun e => e.newText.width

/-- The width that edits take from a line. -/
def removed : Nat → List TextEdit → Nat := sumOn fun e => e.stop.column.toNat - e.start.column.toNat

end TextEdit

namespace Text

open TextEdit

variable {t u : Text} {i : Nat} {e : TextEdit} {es : List TextEdit}

/-- **The width of a line grows by what its edits add and shrinks by what they
take.** -/
theorem width_edited (h : Ascending es) (hes : ∀ e ∈ es, e.Within t) (i : Nat) :
    (t.edited i es).width + removed i es = (t.segment i).width + inserted i es := by
  induction es with
  | nil => rfl
  | cons e es ih =>
    obtain ⟨he, hes'⟩ := List.forall_mem_cons.1 hes
    have hline : SameLine (e :: es) := fun f hf => (hes f hf).same_line
    have hrest := ih h.tail hes'
    unfold removed inserted at hrest ⊢
    by_cases hi : e.start.line.toNat = i
    · subst hi
      obtain ⟨v, hv, hv'⟩ := exists_edited_cons h hline (t := t) rfl
      have hexact := he.exact
      rw [← take_segment (index_le_length _ _), ← take_segment (index_le_length _ _)] at hexact
      rw [hv, width_append, hexact] at hrest
      rw [hv', width_append, width_append, sumOn_cons_self, sumOn_cons_self]
      omega
    · rw [edited_cons_of_ne hi, sumOn_cons_of_ne _ hi, sumOn_cons_of_ne _ hi]
      exact hrest

/-! ## The endings after the edits -/

theorem width_ending (g : Text) : g.ending.width = if g.getLast? = some '\r' then 1 else 0 := by
  unfold ending
  split_ifs <;> rfl

/-- The width of a line is that of its segment without the ending. -/
theorem width_line_add (t : Text) (i : Nat) :
    (t.line i).width + (t.segment i).ending.width = (t.segment i).width := by
  rw [← width_append, line_append_ending]

/-- **Edits keep the ending of a line**: a segment that ends in a carriage
return still does. -/
theorem getLast?_edited (h : Ascending es) (hline : SameLine es)
    (hreturn : (t.segment i).getLast? = some '\r') :
    (t.edited i es).getLast? = some '\r' := by
  have hbound : ∀ column, (t.line i).index column ≤ (t.line i).length := index_le_length _
  obtain ⟨m, hm⟩ := exists_edited_eq h hline (i := i) (Nat.zero_le _) (length_line_le t i)
    (fun _ _ _ => Nat.zero_le _) (fun e _ _ => hbound e.stop.column.toNat)
  have hdrop : (t.segment i).drop (t.line i).length = ['\r'] := by
    conv_lhs => rw [← line_append_ending t i, List.drop_left, ending, if_pos hreturn]
  rw [hm, hdrop, ← List.append_assoc, List.getLast?_concat]

/-- **Edits add no ending** that remove nothing without putting another text
in its place, except from the start of a line. -/
theorem getLast?_segment_of_edited
    (hes : ∀ e ∈ es, '\r' ∉ e.newText ∧ (e.newText ≠ [] ∨ e.start.column = 0))
    (hreturn : (t.edited i es).getLast? = some '\r') :
    (t.segment i).getLast? = some '\r' := by
  induction es with
  | nil => exact hreturn
  | cons e es ih =>
    obtain ⟨⟨hnot, hne⟩, hes'⟩ := List.forall_mem_cons.1 hes
    by_cases hi : e.start.line.toNat = i
    · rw [edited_cons_of_eq hi, List.getLast?_append, List.getLast?_drop] at hreturn
      split_ifs at hreturn with hlen
      · -- the last character is not one of the new text, and nothing comes before that
        exfalso
        rw [Option.none_or, List.getLast?_append] at hreturn
        rcases hne with hne | hzero
        · have hlast := List.getLast?_eq_some_getLast hne
          rw [hlast, Option.some_or, ← hlast] at hreturn
          exact hnot (List.mem_of_getLast? hreturn)
        · have hindex : (t.line i).index e.start.column.toNat = 0 :=
            hzero ▸ index_width_append [] (t.line i)
          rw [hindex, List.take_zero, List.getLast?_nil, Option.or_none] at hreturn
          exact hnot (List.mem_of_getLast? hreturn)
      · cases hlast : (t.edited i es).getLast? with
        | none =>
          rw [List.getLast?_eq_none_iff.1 hlast] at hlen
          exact absurd (Nat.zero_le _) hlen
        | some c =>
          rw [hlast, Option.some_or] at hreturn
          exact ih hes' (hlast.trans hreturn)
    · rw [edited_cons_of_ne hi] at hreturn
      exact ih hes' hreturn

/-- **Where edits add an ending, one of them reaches the end of the line.** -/
theorem exists_stop_of_getLast?_edited (h : Ascending es) (hline : SameLine es)
    (hreturn : (t.edited i es).getLast? = some '\r')
    (hnot : (t.segment i).getLast? ≠ some '\r') :
    ∃ e ∈ es, e.start.line.toNat = i
      ∧ (t.segment i).length ≤ (t.line i).index e.stop.column.toNat := by
  by_contra hnone
  have hlt : ∀ e ∈ es, e.start.line.toNat = i →
      (t.line i).index e.stop.column.toNat < (t.segment i).length :=
    fun e he hi => Nat.lt_of_not_le fun hle => hnone ⟨e, he, hi, hle⟩
  by_cases hnil : t.segment i = []
  · -- an empty segment has no room for an edit
    refine hnot (edited_eq_segment (fun e he hi => ?_) ▸ hreturn)
    have hzero := hlt e he hi
    rw [hnil] at hzero
    exact Nat.not_lt_zero _ hzero
  have hlen : ¬ (t.segment i).length ≤ (t.segment i).length - 1 :=
    Nat.not_le.2 (Nat.sub_lt (List.length_pos_of_ne_nil hnil) Nat.one_pos)
  have hlast := List.getLast?_eq_some_getLast hnil
  obtain ⟨m, hm⟩ := exists_edited_eq h hline (i := i) (Nat.zero_le _) (Nat.sub_le _ 1)
    (fun _ _ _ => Nat.zero_le _) (fun e he hi => Nat.le_sub_one_of_lt (hlt e he hi))
  rw [hm, List.take_zero, List.nil_append, List.getLast?_append, List.getLast?_drop,
    if_neg hlen, hlast, Option.some_or, ← hlast] at hreturn
  exact hnot hreturn

/-- **A carriage return comes to end a line**: one that was no ending before
is the last character of the segment now. -/
def ReturnExposed (t u : Text) (i : Nat) : Prop :=
  (u.segment i).getLast? = some '\r' ∧ (t.segment i).getLast? ≠ some '\r'

instance (t u : Text) (i : Nat) : Decidable (ReturnExposed t u i) :=
  inferInstanceAs (Decidable (_ ∧ _))

/-- **The width of a line after the edits**, counting a carriage return that
has come to end it. -/
theorem width_line_edited (h : Ascending es) (hes : ∀ e ∈ es, e.Within t)
    (hseg : u.segment i = t.edited i es) :
    (u.line i).width + removed i es + (if ReturnExposed t u i then 1 else 0)
      = (t.line i).width + inserted i es := by
  have hline : SameLine es := fun f hf => (hes f hf).same_line
  have hwidth := width_edited h hes i
  rw [← hseg, ← width_line_add, ← width_line_add, width_ending, width_ending] at hwidth
  by_cases hreturn : (t.segment i).getLast? = some '\r'
  · have hkeep := getLast?_edited h hline hreturn
    have hexposed : ¬ ReturnExposed t u i := fun hexposed => hexposed.2 hreturn
    rw [← hseg] at hkeep
    rw [if_pos hreturn, if_pos hkeep] at hwidth
    rw [if_neg hexposed]
    omega
  · rw [if_neg hreturn] at hwidth
    by_cases hnew : (u.segment i).getLast? = some '\r'
    · have hexposed : ReturnExposed t u i := ⟨hnew, hreturn⟩
      rw [if_pos hnew] at hwidth
      rw [if_pos hexposed]
      omega
    · have hexposed : ¬ ReturnExposed t u i := fun hexposed => hnew hexposed.1
      rw [if_neg hnew] at hwidth
      rw [if_neg hexposed]
      omega

end Text

end EditorCore
