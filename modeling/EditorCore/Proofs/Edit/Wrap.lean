import EditorCore.Proofs.Edit.Marks
import EditorCore.Proofs.Selection.Components
import EditorCore.Proofs.Session.Range

/-!
# Wrapped selections

An opening character typed over selections puts one at the start of each and a
closing one at its stop, and the text stays selected. The planned selections are
computed line by line, from what the characters add on the line a selection
starts on and on the line it stops on, which may be the line an earlier one
stopped on. That they are right is seen on the new text, passed once from its
start: a part of it that ends where a wrapped text begins, or ends, has grown
from the part of the old text that ends there by what is logged
(`Text.Grown`), so the position the log gives is the mark of it
(`wraps_wrapped`).

`openPair_wraps` puts this together: selections in normal form of which none is
a cursor are wrapped, and each planned selection covers what its own covered,
between the two characters, in its direction.
-/

namespace EditorCore

open TextEdit

variable {t u : Text} {opening closing : Char}

namespace Text

/-- The text a selection covers. -/
def selected (t : Text) (s : Selection) : Text :=
  (t.takeBytes (t.offset s.stop)).dropBytes (t.offset s.start)

/-- **A selection is wrapped**: what `s` covers in `t` is covered by `r` in `u`,
where it stands between the opening and the closing character; the ends of `r`
lie within the buffer, between characters of it, and `r` runs in the direction
of `s`. -/
structure Wraps (t u : Text) (opening closing : Char) (s r : Selection) : Prop where
  direction : r.isForward = s.isForward
  contains : (Document.ofText u).contains r.anchor ∧ (Document.ofText u).contains r.head
  atBoundary : u.AtBoundary r.anchor ∧ u.AtBoundary r.head
  selected_eq : u.selected r = t.selected s
  surrounded : ∃ before after, u = before ++ opening :: u.selected r ++ closing :: after
    ∧ u.offset r.start = byteSize (before ++ [opening])
    ∧ u.offset r.stop = byteSize (before ++ opening :: u.selected r)

/-- **The text of a selection** stands between the characters before its start
and those after its stop. -/
theorem take_append_selected (t : Text) (s : Selection) :
    t.take (t.charsBefore s.start) ++ t.selected s = t.take (t.charsBefore s.stop) := by
  rw [selected, offset_eq_byteAt, offset_eq_byteAt]
  exact take_append_dropBytes_takeBytes (charsBefore_mono s.start_le_stop)
    (charsBefore_le_length t _)

/-- The text between two marks is selected by a selection between them. -/
theorem selected_of_offsets {before mid after : Text} {r : Selection}
    (hstart : (before ++ mid ++ after).offset r.start = before.byteSize)
    (hstop : (before ++ mid ++ after).offset r.stop = byteSize (before ++ mid)) :
    (before ++ mid ++ after).selected r = mid := by
  rw [selected, hstart, hstop, ← byteAt_length_append (before ++ mid) after,
    takeBytes_byteAt (by simp), List.take_left, ← byteAt_length_append before mid,
    dropBytes_byteAt (by simp), List.drop_left]

/-! ## Marks in a buffer -/

instance (t : Text) (p : Position) : Decidable (t.AtBoundary p) :=
  inferInstanceAs (Decidable (_ = _))

/-- **A position stands in a text**: on one of its lines, no further than its
end, and between two characters of it. -/
def Stands (t : Text) (p : Position) : Prop := t.Reach [] p ∧ t.AtBoundary p

theorem Stands.marks {p : Position} (h : t.Stands p) : Marks (t.take (t.charsBefore p)) p :=
  marks_take_charsBefore h.1.line_lt h.2

/-- A mark stands in the text it was put into, where that has its line. -/
theorem Marks.stands {s : Text} {p : Position} (h : s.Marks p) (hgoes : s.GoesOn t)
    (hline : p.line < .ofNat (s ++ t).segments.length) : (s ++ t).Stands p :=
  ⟨⟨hline, h.column_le hgoes⟩, h.atBoundary hgoes⟩

/-- The line a text ends on fits into columns that are words. -/
theorem width_lastLine_lt {s : Text} (hu : u = s ++ t) (hgoes : s.GoesOn t)
    (hwords : u.Addressable) : s.lastLine.width < UInt32.size := by
  subst hu
  have hline := hwords.width_line_lt (s.count '\n')
  rw [line_append_count hgoes, width_append] at hline
  exact Nat.lt_of_le_of_lt (Nat.le_add_right _ _) hline

/-- A selection that is no cursor covers some text. -/
theorem selected_ne_nil {s : Selection} (h : ¬ s.isEmpty) (hstart : t.Stands s.start)
    (hstop : t.Stands s.stop) : t.selected s ≠ [] := by
  intro hnil
  have hsame := t.take_append_selected s
  rw [hnil, List.append_nil] at hsame
  have hmark := hstart.marks
  rw [hsame] at hmark
  rw [Selection.isEmpty_iff_rank_eq, hmark.unique hstop.marks] at h
  exact h rfl

end Text

namespace Selection

/-- A selection between two different positions in order has these bounds. -/
theorem bounds_withBounds {start stop : Position} (s : Selection) (h : start.rank < stop.rank) :
    (s.withBounds start stop).start = start ∧ (s.withBounds start stop).stop = stop := by
  obtain ⟨hstart, hstop⟩ := rank_withBounds s h.le
  exact ⟨Position.rank_inj.1 hstart, Position.rank_inj.1 hstop⟩

end Selection

open Text

/-! ## One selection -/

/-- **A selection between the marks of its wrapped text** wraps it. -/
theorem wraps_withBounds {s : Selection} {before after : Text} {start stop : Position}
    (hplain : ∀ c ∈ [opening, closing], c ≠ '\n' ∧ c ≠ '\r')
    (hu : u = before ++ [opening] ++ t.selected s ++ closing :: after)
    (hne : t.selected s ≠ [])
    (hstart : Marks (before ++ [opening]) start)
    (hstop : Marks (before ++ [opening] ++ t.selected s) stop)
    (hlines : start.line < .ofNat u.segments.length ∧ stop.line < .ofNat u.segments.length)
    (hwords : u.Addressable) :
    t.Wraps u opening closing s (s.withBounds start stop) := by
  have hopens (rest : Text) : GoesOn (before ++ [opening]) rest :=
    goesOn_concat before rest (hplain opening List.mem_cons_self)
  have hcloses : GoesOn (before ++ [opening] ++ t.selected s) (closing :: after) :=
    goesOn_cons _ after (hplain closing (by simp)).1
  have hlt : start.rank < stop.rank := hstart.rank_lt hstop hne
  obtain ⟨hwithstart, hwithstop⟩ := Selection.bounds_withBounds s hlt
  have hu' := hu
  rw [List.append_assoc (before ++ [opening])] at hu'
  have hoffset : u.offset start = byteSize (before ++ [opening]) := by
    rw [hu']
    exact hstart.offset_eq (hopens _)
  have hoffset' : u.offset stop = byteSize (before ++ [opening] ++ t.selected s) := by
    rw [hu]
    exact hstop.offset_eq hcloses
  have hselected : u.selected (s.withBounds start stop) = t.selected s := by
    rw [hu] at hoffset hoffset' ⊢
    exact selected_of_offsets (by rw [hwithstart, hoffset]) (by rw [hwithstop, hoffset'])
  have hstands : u.Stands start ∧ u.Stands stop := by
    constructor
    · rw [hu'] at hlines ⊢
      exact hstart.stands (hopens _) hlines.1
    · rw [hu] at hlines ⊢
      exact hstop.stands hcloses hlines.2
  obtain ⟨hanchor, hhead⟩ := Selection.ends_withBounds s hstands.1 hstands.2
  refine ⟨Selection.isForward_withBounds hlt.le fun _ => hlt, ?_, ⟨hanchor.2, hhead.2⟩, hselected,
    before, after, ?_, ?_, ?_⟩
  · exact ⟨(Document.contains_iff_reach hwords).2 hanchor.1,
      (Document.contains_iff_reach hwords).2 hhead.1⟩
  · rw [hselected, hu, List.append_assoc before, List.singleton_append]
  · rw [hwithstart, hoffset]
  · rw [hwithstop, hoffset', hselected, List.append_assoc, List.singleton_append]

/-! ## All selections -/

/-- **The edits of one selection in one pass**: up to its start the text is
copied, and then come the opening character, what the selection covers and the
closing one. -/
theorem spliced_wrapEdits {front gap : Text} {s : Selection} {es : List TextEdit}
    (h : front ++ gap = t.take (t.charsBefore s.start)) :
    t.spliced front.byteSize (wrapEdits opening closing s ++ es)
      = gap ++ [opening] ++ t.selected s
        ++ closing :: t.spliced (byteSize (t.take (t.charsBefore s.stop))) es := by
  rw [wrapEdits, List.cons_append, List.cons_append, List.nil_append, spliced_insert h,
    offset_eq_byteAt, byteAt, spliced_insert (t.take_append_selected s), offset_eq_byteAt, byteAt,
    List.append_assoc _ [closing], ← List.append_assoc, List.singleton_append]

/-- **The planned selections wrap the selections.** By induction on the
selections, where the part of the old text up to the last wrapped selection and
that of the new text up to its closing character have grown apart by the
log. -/
theorem wraps_wrapped {ss : List Selection} {front moved : Text} {log : ShiftLog}
    (hplain : ∀ c ∈ [opening, closing], c ≠ '\n' ∧ c ≠ '\r') (hwords : u.Addressable)
    (hlength : u.segments.length = t.segments.length)
    (hss : ∀ s ∈ ss, ¬ s.isEmpty ∧ t.Stands s.start ∧ t.Stands s.stop)
    (hgaps : ss.Pairwise fun s t => s.stop.rank < t.start.rank)
    (hgrown : Grown front moved log)
    (hfront : ∀ s ∈ ss.head?, front <+: t.take (t.charsBefore s.start))
    (hu : u = moved ++ t.spliced front.byteSize (ss.flatMap (wrapEdits opening closing))) :
    List.Forall₂ (t.Wraps u opening closing) ss (wrapped opening closing log ss) := by
  induction ss generalizing front moved log with
  | nil => exact .nil
  | cons s ss ih =>
    obtain ⟨⟨hnonempty, hstart, hstop⟩, hss⟩ := List.forall_mem_cons.1 hss
    obtain ⟨hnext, hgaps⟩ := List.pairwise_cons.1 hgaps
    obtain ⟨gap, hgap⟩ := hfront s rfl
    have hnot : ∀ c ∈ [opening, closing], '\n' ∉ [c] :=
      fun c hc hmem => (hplain c hc).1 (List.mem_singleton.1 hmem).symm
    have hopened := (hgap ▸ hgrown.append gap).insert hstart.marks
      (hnot opening List.mem_cons_self) (toNat_columnWidth opening).symm
    have hcovered := t.take_append_selected s ▸ hopened.append (t.selected s)
    have hclosed := hcovered.insert hstop.marks
      (hnot closing (by simp)) (toNat_columnWidth closing).symm
    rw [List.flatMap_cons, spliced_wrapEdits hgap, ← List.append_assoc, ← List.append_assoc,
      ← List.append_assoc] at hu
    have hlines : s.start.line < .ofNat u.segments.length
        ∧ s.stop.line < .ofNat u.segments.length := by
      rw [hlength]
      exact ⟨hstart.1.1, hstop.1.1⟩
    refine .cons (wraps_withBounds hplain hu (selected_ne_nil hnonempty hstart hstop) ?_ ?_
      hlines hwords) (ih hss hgaps hclosed (fun r hr => ?_) ?_)
    · exact hopened.marks hstart.marks (width_lastLine_lt (hu.trans (List.append_assoc _ _ _))
        (goesOn_concat _ _ (hplain opening List.mem_cons_self)) hwords)
    · exact hcovered.marks hstop.marks (width_lastLine_lt hu
        (goesOn_cons _ _ (hplain closing (by simp)).1) hwords)
    · exact List.take_prefix_take_left
        (charsBefore_mono (hnext r (List.mem_of_mem_head? hr)).le)
    · rw [hu, List.append_assoc _ [closing], List.singleton_append]

/-- Selections of which none is a cursor are wrapped. -/
theorem openPair_eq_surround {source : TokenSource} {ss : List Selection} (hne : ss ≠ [])
    (hnonempty : ∀ s ∈ ss, ¬ s.isEmpty) :
    openPair source ss opening closing = .edit (surround ss opening closing) := by
  have hliteral : ¬ (closing = '"' ∧ ∃ s ∈ ss, s.isEmpty ∧ source.inLiteral s.head) :=
    fun ⟨_, s, hs, hempty, _⟩ => hnonempty s hs hempty
  have hcursors : ¬ ∀ s ∈ ss, s.isEmpty ∧ source.pairable s.head := by
    obtain ⟨s, hs⟩ := List.exists_mem_of_ne_nil ss hne
    exact fun h => hnonempty s hs (h s hs).1
  rw [openPair, if_neg hne, if_neg hliteral, if_neg hcursors, if_pos hnonempty]

/-- Selections with gaps between them are wrapped in the order they are in. -/
theorem surround_of_pairwise {ss : List Selection}
    (hgaps : ss.Pairwise fun s t => s.stop.rank < t.start.rank) (opening closing : Char) :
    surround ss opening closing
      = ⟨ss.flatMap (wrapEdits opening closing), wrapped opening closing [] ss⟩ := by
  have hsort : Selection.sortByStart ss = ss :=
    Selection.sortByStart_of_pairwise (hgaps.imp fun {s _} hst => s.start_le_stop.trans hst.le)
  rw [surround, hsort]
  rfl

/-- **Typing an opening character over selections wraps them.** Selections in
normal form of which none is a cursor, all within the buffer and with their ends
between characters, are planned to be wrapped, and the plan applies: the buffer
gets the opening character at every start and the closing one at every stop.
Where its columns are words, every planned selection covers what its own
covered, right between the two characters, in the same direction. -/
theorem Document.openPair_wraps (d : Document) (ss : List Selection)
    (hplain : ∀ c ∈ [opening, closing], c ≠ '\n' ∧ c ≠ '\r')
    (hnormal : Selection.normalize ss = ss) (hne : ss ≠ [])
    (hnonempty : ∀ s ∈ ss, ¬ s.isEmpty)
    (hinside : ∀ s ∈ ss, d.contains s.anchor ∧ d.contains s.head)
    (hboundary : ∀ s ∈ ss, d.text.AtBoundary s.anchor ∧ d.text.AtBoundary s.head) :
    ∃ plan u, openPair d.source ss opening closing = .edit plan
      ∧ plan.apply d.text = .ok u
      ∧ u = d.text.spliced 0 (ss.flatMap (wrapEdits opening closing))
      ∧ (u.Addressable → List.Forall₂ (d.text.Wraps u opening closing) ss plan.selections) := by
  have hgaps := hnormal ▸ Selection.pairwise_normalize ss
  have hstands : ∀ s ∈ ss, d.text.Stands s.anchor ∧ d.text.Stands s.head := fun s hs =>
    ⟨⟨Document.reach_of_contains (hinside s hs).1, (hboundary s hs).1⟩,
      ⟨Document.reach_of_contains (hinside s hs).2, (hboundary s hs).2⟩⟩
  obtain ⟨htracks, -⟩ := tracks_surround hplain (hgaps.imp Nat.le_of_lt)
    fun s hs => (hstands s hs).imp And.left And.left
  rw [surround_of_pairwise hgaps] at htracks
  have happly := EditPlan.apply_of_ascending htracks.ascending d.text
  have hspliced := happly
  rw [EditPlan.apply_eq, EditPlan.overlap?_eq_none htracks.ascending fun _ _ => Nat.zero_le _]
    at hspliced
  have hlength := (segment_foldr_replace htracks.ascending htracks.within).1
  rw [← Except.ok.inj hspliced] at happly hlength
  refine ⟨_, _, (openPair_eq_surround hne hnonempty).trans
    (congrArg _ (surround_of_pairwise hgaps opening closing)), happly, rfl, fun hwords => ?_⟩
  refine wraps_wrapped hplain hwords hlength (fun s hs => ?_) hgaps (grown_nil [])
    (fun s _ => List.nil_prefix) rfl
  exact ⟨hnonempty s hs, Selection.bounds_of_ends (hstands s hs)⟩

/-- Three selections, the second of which runs backward from the second line to
the end of the first: it starts on the line of the first selection, and the third
one on the line where it stops. The opening character takes two columns. -/
theorem Document.openPair_wraps_lines :
    let text : Text := ['a', 'b', 'c', '\n', 'd', 'e', 'f']
    let ss : List Selection := [⟨⟨0, 0⟩, ⟨0, 1⟩⟩, ⟨⟨1, 1⟩, ⟨0, 2⟩⟩, ⟨⟨1, 2⟩, ⟨1, 3⟩⟩]
    let rs : List Selection := [⟨⟨0, 2⟩, ⟨0, 3⟩⟩, ⟨⟨1, 1⟩, ⟨0, 7⟩⟩, ⟨⟨1, 5⟩, ⟨1, 6⟩⟩]
    let wrapped : Text := ['😀', 'a', ']', 'b', '😀', 'c', '\n', 'd', ']', 'e', '😀', 'f', ']']
    ∃ plan, openPair (ofText text).source ss '😀' ']' = .edit plan ∧ plan.selections = rs
      ∧ plan.apply text = .ok wrapped ∧ List.Forall₂ (text.Wraps wrapped '😀' ']') ss rs := by
  intro text ss rs wrapped
  have hgaps : ss.Pairwise fun s t => s.stop.rank < t.start.rank := by decide
  obtain ⟨plan, u, hplan, happly, hu, hwraps⟩ := @openPair_wraps '😀' ']' (ofText text) ss
    (by simp) (Selection.normalize_of_pairwise hgaps) (by decide) (by decide)
    (by decide +kernel) (by decide +kernel)
  have hwrapped : u = wrapped := hu.trans (by decide +kernel)
  have hrs : plan.selections = rs := by
    rw [openPair_eq_surround (by decide) (by decide), surround_of_pairwise hgaps] at hplan
    rw [← KeyOutcome.edit.inj hplan]
    decide
  rw [hwrapped, hrs] at hwraps
  exact ⟨plan, hplan, hrs, hwrapped ▸ happly, hwraps (by decide +kernel)⟩

end EditorCore
