import EditorCore.Proofs.Session.Range

/-!
# What indentation makes of the lines

Every touched line gets the canonical blanks of a new width, and what comes after
its blanks stays, the ending included (`Text.Indented`). A line that has these
blanks already is not edited, so its text does not say whether it was touched;
lines that are not touched are left alone in any case.

The ends of the selections go with the lines (`Text.MovesTo`). On a line that
changes, an end among the old blanks goes to the end of the new ones, and one after
them keeps the text to its right. All of this is about sums that are words; with others
there is no plan.
-/

namespace EditorCore

open TextEdit

/-! ## Blanks and what comes after them -/

namespace Text

variable {t u : Text} {i : Nat}

/-- A line without its leading blanks, but with its ending. -/
def afterBlanks (t : Text) (i : Nat) : Text := (t.segment i).drop (t.line i).indentation.length

theorem indentation_append_afterBlanks (t : Text) (i : Nat) :
    (t.line i).indentation ++ t.afterBlanks i = t.segment i := by
  have hprefix : (t.line i).indentation <+: t.segment i := by
    rw [← line_append_ending t i]
    exact (List.takeWhile_prefix isIndent).trans (List.prefix_append _ _)
  obtain ⟨rest, hrest⟩ := hprefix
  rw [afterBlanks, ← hrest, List.drop_left]

/-- Blanks are no ending of a line. -/
theorem dropReturn_blanks_append {blanks rest : Text} (h : ∀ c ∈ blanks, c = ' ' ∨ c = '\t') :
    dropReturn (blanks ++ rest) = blanks ++ rest.dropReturn :=
  dropReturn_append <| .inr fun hlast => by
    rcases h _ (List.mem_of_getLast? hlast) with hc | hc <;> exact absurd hc (by decide)

theorem line_eq_append_afterBlanks (t : Text) (i : Nat) :
    t.line i = (t.line i).indentation ++ (t.afterBlanks i).dropReturn := by
  conv_lhs => rw [line, ← indentation_append_afterBlanks,
    dropReturn_blanks_append fun _ => mem_indentation]

/-- After the blanks of a line there is no blank. -/
theorem indentation_afterBlanks (t : Text) (i : Nat) :
    (t.afterBlanks i).dropReturn.indentation = [] := by
  have hall : ∀ c ∈ (t.line i).indentation, isIndent c = true := fun _ => List.mem_takeWhile_imp
  have hline : (t.line i).indentation
      = (t.line i).indentation ++ (t.afterBlanks i).dropReturn.indentation := by
    conv_lhs => rw [line_eq_append_afterBlanks, indentation, List.takeWhile_append_of_pos hall]
    rfl
  exact List.self_eq_append_right.1 hline

/-- **Other blanks before what comes after the blanks** of a line are the blanks of
the new line. -/
theorem line_of_segment_eq {blanks : Text} (hblanks : ∀ c ∈ blanks, c = ' ' ∨ c = '\t')
    (h : u.segment i = blanks ++ t.afterBlanks i) :
    (u.line i).indentation = blanks ∧ u.afterBlanks i = t.afterBlanks i
      ∧ u.line i = blanks ++ (t.afterBlanks i).dropReturn := by
  have hline : u.line i = blanks ++ (t.afterBlanks i).dropReturn := by
    rw [line, h, dropReturn_blanks_append hblanks]
  have hindent : ∀ c ∈ blanks, isIndent c = true := fun c hc => by
    rcases hblanks c hc with rfl | rfl <;> rfl
  have hindentation : (u.line i).indentation = blanks := by
    rw [hline, indentation, List.takeWhile_append_of_pos hindent]
    exact (congrArg (blanks ++ ·) (indentation_afterBlanks t i)).trans (List.append_nil blanks)
  refine ⟨hindentation, ?_, hline⟩
  rw [afterBlanks, hindentation, h, List.drop_left]

/-- **The edits of a line with one edit.** -/
theorem edited_eq_of_mem {e : TextEdit} {es : List TextEdit}
    (h : es.Pairwise fun e f => e.start.line.toNat < f.start.line.toNat) (he : e ∈ es)
    (hi : e.start.line.toNat = i) :
    t.edited i es = (t.segment i).take ((t.line i).index e.start.column.toNat) ++ e.newText
      ++ (t.segment i).drop ((t.line i).index e.stop.column.toNat) := by
  induction es with
  | nil => exact absurd he List.not_mem_nil
  | cons f es ih =>
    obtain ⟨hf, hes⟩ := List.pairwise_cons.1 h
    rcases List.mem_cons.1 he with rfl | he
    · rw [edited_cons_of_eq hi, edited_eq_segment fun f hf' hline => ?_]
      exact absurd (hi.trans hline.symm) (hf f hf').ne
    · rw [edited_cons_of_ne fun hline => absurd (hline.trans hi.symm) (hf e he).ne, ih hes he]

end Text

open Text

/-! ## The lines -/

namespace Text

/-- **A line is indented to a width**: its blanks are the canonical ones of that
width, and what comes after them stays. -/
structure Indented (settings : IndentSettings) (t u : Text) (i width : Nat) : Prop where
  afterBlanks_eq : u.afterBlanks i = t.afterBlanks i
  blankWidth_eq : (u.line i).indentation.blankWidth settings.tabStop = width
  canonical : (u.line i).indentation.IsCanonical settings.tabStop settings.withTabs

/-- **A position moves with its line.** On a line that stays as it is, so does the
position. On one that changes, a position among the blanks goes to the end of the new
ones, and a later one keeps the text to its right, at the same distance from the
blanks. -/
structure MovesTo (t u : Text) (p q : Position) : Prop where
  line_eq : q.line = p.line
  unmoved : u.segment p.line.toNat = t.segment p.line.toNat → q = p
  to_blanks : u.segment p.line.toNat ≠ t.segment p.line.toNat →
    p.column.toNat ≤ (t.line p.line.toNat).indentation.width →
    q.column.toNat = (u.line p.line.toNat).indentation.width
  keeps_right : u.segment p.line.toNat ≠ t.segment p.line.toNat →
    (t.line p.line.toNat).indentation.width < p.column.toNat →
    (u.line p.line.toNat).drop ((u.line p.line.toNat).index q.column.toNat)
        = (t.line p.line.toNat).drop ((t.line p.line.toNat).index p.column.toNat)
      ∧ q.column.toNat + (t.line p.line.toNat).indentation.width
        = p.column.toNat + (u.line p.line.toNat).indentation.width

end Text

variable {t u : Text} {ss : List Selection} {settings : IndentSettings}
  {direction : IndentDirection} {i : Nat}

/-- **What the edits make of a touched line**: new blanks before what comes after the
old ones. -/
theorem edited_of_touched {line : UInt32} (htouched : Selection.Touched ss line.toNat)
    (hlength : (t.line line.toNat).indentation.length < UInt32.size) :
    t.edited line.toNat (t.indentPlan settings direction ss).edits
      = settings.newBlanks direction (t.line line.toNat).indentation
        ++ t.afterBlanks line.toNat := by
  have hfind := t.find?_reindents settings direction ss line
  have horder := t.pairwise_reindents settings direction ss
  rw [if_pos htouched, reindentAt?] at hfind
  unfold indentPlan
  generalize t.reindents settings direction ss = changes at *
  split_ifs at hfind with hsame
  · -- the blanks are as they are to be, and there is no edit
    rw [hsame, indentation_append_afterBlanks]
    refine edited_eq_segment fun e he hline => ?_
    obtain ⟨r, hr, rfl⟩ := List.mem_map.1 he
    have hne := List.find?_eq_none.1 hfind r hr
    rw [decide_eq_true_eq] at hne
    exact hne (UInt32.toNat_inj.1 hline)
  · have hedits : (changes.map (·.toEdit)).Pairwise
        fun e f => e.start.line.toNat < f.start.line.toNat := List.pairwise_map.2 horder
    have hmem := List.mem_map_of_mem (f := (·.toEdit)) (List.mem_of_find?_eq_some hfind)
    rw [edited_eq_of_mem (i := line.toNat) hedits hmem rfl]
    have hstart : (t.line line.toNat).index 0 = 0 := index_width_append [] _
    have hstop : (t.line line.toNat).index (t.line line.toNat).indentation.length
        = (t.line line.toNat).indentation.length := by
      have hindex := index_width_append (t.line line.toNat).indentation
        ((t.line line.toNat).dropWhile isIndent)
      rwa [width_indentation, indentation_append_dropWhile] at hindex
    show List.take ((t.line line.toNat).index 0) _ ++ _
      ++ List.drop ((t.line line.toNat).index (UInt32.ofNat _).toNat) _ = _
    rw [hstart, UInt32.toNat_ofNat_of_lt' hlength, hstop]
    rfl

/-- Lines that no selection touches stay. -/
theorem edited_of_not_touched (h : ¬ Selection.Touched ss i) :
    t.edited i (t.indentPlan settings direction ss).edits = t.segment i := by
  refine edited_eq_segment fun e he hline => h ?_
  obtain ⟨r, hr, rfl⟩ := List.mem_map.1 he
  exact hline ▸ (mem_reindents hr).1

/-- **A touched line is indented** to the new width. -/
theorem indented_of_touched (htouched : Selection.Touched ss i)
    (hfits : settings.WidthsFit direction (t.line i).indentation)
    (hseg : u.segment i = t.edited i (t.indentPlan settings direction ss).edits) :
    t.Indented settings u i (direction.newWidth settings.indentUnit.toNat
      ((t.line i).indentation.blankWidth settings.tabStop)) := by
  obtain ⟨line, rfl⟩ := htouched.exists_toNat_eq
  rw [edited_of_touched htouched hfits.length_lt] at hseg
  obtain ⟨hindentation, hafter, -⟩ :=
    line_of_segment_eq (fun _ => IndentSettings.mem_newBlanks) hseg
  refine ⟨hafter, ?_, ?_⟩
  · rw [hindentation, IndentSettings.blankWidth_newBlanks hfits]
  · rw [hindentation]
    exact settings.isCanonical_newBlanks direction _

/-! ## The ends of the selections -/

theorem Text.MovesTo.refl {p : Position}
    (h : u.segment p.line.toNat = t.segment p.line.toNat) : t.MovesTo u p p :=
  ⟨rfl, fun _ => rfl, fun hne => absurd h hne, fun hne => absurd h hne⟩

/-- What comes after a column that is counted from the end of a first part. -/
theorem Text.drop_index_of_eq_append {line first rest : Text} (h : line = first ++ rest)
    (column : Nat) :
    line.drop (line.index (first.width + column)) = rest.drop (rest.index column) := by
  rw [h, index_append_add, List.drop_length_add_append]

/-- A position that moves with the blanks of a line that changes. -/
theorem Text.MovesTo.of_changed {new : Text} {p q : Position} (hline : q.line = p.line)
    (hblanks : ∀ c ∈ new, c = ' ' ∨ c = '\t')
    (hseg : u.segment p.line.toNat = new ++ t.afterBlanks p.line.toNat)
    (hne : new ≠ (t.line p.line.toNat).indentation)
    (hamong : p.column.toNat ≤ (t.line p.line.toNat).indentation.length →
      q.column.toNat = new.length)
    (hafter : (t.line p.line.toNat).indentation.length < p.column.toNat →
      q.column.toNat + (t.line p.line.toNat).indentation.length = p.column.toNat + new.length) :
    t.MovesTo u p q := by
  obtain ⟨hindentation, -, hnew⟩ := line_of_segment_eq hblanks hseg
  have hold := line_eq_append_afterBlanks t p.line.toNat
  have hchanged : u.segment p.line.toNat ≠ t.segment p.line.toNat := by
    rw [hseg, ← indentation_append_afterBlanks]
    exact fun h => hne (List.append_cancel_right h)
  have hwidth := width_eq_length_of_indent hblanks
  have holdWidth := width_indentation (t.line p.line.toNat)
  refine ⟨hline, fun h => absurd h hchanged, fun _ hcolumn => ?_, fun _ hcolumn => ?_⟩
  · rw [hindentation, hwidth]
    exact hamong (holdWidth ▸ hcolumn)
  · have hmoved := hafter (holdWidth ▸ hcolumn)
    obtain ⟨column, hp⟩ := Nat.exists_eq_add_of_le hcolumn.le
    have hq : q.column.toNat = new.width + column := by omega
    rw [hindentation, hq, hp, drop_index_of_eq_append hnew, drop_index_of_eq_append hold]
    exact ⟨rfl, by omega⟩

/-- **Ends of selections move with their lines.** -/
theorem movesTo_movedBy {p : Position}
    (hwidths : Selection.Touched ss p.line.toNat →
      settings.WidthsFit direction (t.line p.line.toNat).indentation)
    (hend : t.EndFits settings direction ss p)
    (hseg : u.segment p.line.toNat
      = t.edited p.line.toNat (t.indentPlan settings direction ss).edits) :
    t.MovesTo u p (p.movedBy (t.reindents settings direction ss)) := by
  unfold Position.movedBy
  by_cases htouched : Selection.Touched ss p.line.toNat
  · have hfits := hwidths htouched
    rw [edited_of_touched htouched hfits.length_lt] at hseg
    rw [find?_reindents, if_pos htouched, reindentAt?]
    split_ifs with hsame
    · exact .refl (by rw [hseg, hsame, indentation_append_afterBlanks])
    · have holdWord := UInt32.toNat_ofNat_of_lt' hfits.length_lt
      have hnewWord := UInt32.toNat_ofNat_of_lt' hfits.length_newBlanks_lt
      refine .of_changed rfl (fun _ => IndentSettings.mem_newBlanks) hseg hsame
        (fun hle => ?_) (fun hlt => ?_)
      · have hle' : p.column ≤ .ofNat (t.line p.line.toNat).indentation.length := by
          rwa [UInt32.le_iff_toNat_le, holdWord]
        exact (congrArg UInt32.toNat (if_pos hle')).trans hnewWord
      · have hlt' : ¬ p.column ≤ .ofNat (t.line p.line.toNat).indentation.length := by
          rwa [UInt32.le_iff_toNat_le, holdWord, Nat.not_le]
        have hsub := UInt32.toNat_sub_of_le _ _ (UInt32.le_of_lt (UInt32.not_le.1 hlt'))
        have hword := hend htouched hsame hlt
        refine (congrArg (UInt32.toNat · + _) (if_neg hlt')).trans ?_
        dsimp only [Reindent.newLength]
        rw [Checked.toNat_add (by rwa [hsub, holdWord, hnewWord]), hsub, holdWord, hnewWord]
        omega
  · rw [edited_of_not_touched htouched] at hseg
    rw [find?_reindents, if_neg htouched]
    exact .refl hseg

/-- **What indenting the touched lines does.** There is a plan exactly if all sums are words.
The plan applies, every touched line
is indented to its new width, and the other lines stay. The ends of the selections, in
the order of their starts, move with their lines. -/
theorem Document.indent_reindents (d : Document) (ss : List Selection)
    (settings : IndentSettings) (direction : IndentDirection)
    (hinside : ∀ s ∈ ss, d.contains s.anchor ∧ d.contains s.head) :
    (indent d.source ss settings direction = none ↔ ¬ d.text.SumsFit settings direction ss)
    ∧ (d.text.SumsFit settings direction ss →
        ∃ plan u, indent d.source ss settings direction = some (.edit plan)
          ∧ plan.apply d.text = .ok u
          ∧ u.segments.length = d.text.segments.length
          ∧ (∀ i, Selection.Touched ss i → d.text.Indented settings u i
              (direction.newWidth settings.indentUnit.toNat
                ((d.text.line i).indentation.blankWidth settings.tabStop)))
          ∧ (∀ i, ¬ Selection.Touched ss i → u.segment i = d.text.segment i)
          ∧ List.Forall₂ (fun s moved => d.text.MovesTo u s.anchor moved.anchor
              ∧ d.text.MovesTo u s.head moved.head)
            (Selection.sortByStart ss) plan.selections) := by
  have hsource : ∀ line, d.source.lineText line = d.text.line line.toNat := d.lineText_eq_line
  have hcomputes := Checked.computes_indent hsource ss settings direction
  refine ⟨hcomputes.eq_none_iff, fun hsums => ?_⟩
  have hreach : ∀ s ∈ ss, d.text.Reach [] s.anchor ∧ d.text.Reach [] s.head :=
    fun s hs => (hinside s hs).imp Document.reach_of_contains Document.reach_of_contains
  have htracks := (tracks_indentPlan hsums hreach).1
  have happly := EditPlan.apply_of_ascending htracks.ascending d.text
  obtain ⟨hlines, hseg⟩ := htracks.segment_of_apply happly
  refine ⟨_, _, hcomputes.eq hsums, happly, hlines, fun i hi => ?_, fun i hi => ?_, ?_⟩
  · exact indented_of_touched hi (hsums.widths i hi) (hseg i)
  · rw [hseg]
    exact edited_of_not_touched hi
  · have hmoves : ∀ p, d.text.EndFits settings direction ss p → d.text.MovesTo _ p
        (p.movedBy (d.text.reindents settings direction ss)) := fun p hp =>
      movesTo_movedBy (hsums.widths _) hp (hseg _)
    rw [indentPlan, List.forall₂_map_right_iff, List.forall₂_same]
    intro s hs
    rw [Selection.mem_sortByStart] at hs
    exact (hsums.ends s hs).imp (hmoves _) (hmoves _)

/-- A backward selection that stops in column 0 of the second line and a cursor on the
third. Before, the blanks are a space and a tab on the first line and two spaces on
the third; after, a tab and two spaces, and a tab. -/
theorem Document.indent_reindents_tabs :
    let text : Text := [' ', '\t', 'x', '\r', '\n', 'y', '\n', ' ', ' ', '😀', 'z']
    let ss : List Selection := [.cursor ⟨2, 4⟩, ⟨⟨1, 0⟩, ⟨0, 1⟩⟩]
    let settings : IndentSettings := { tabSize := 4, indentUnit := 2, withTabs := true }
    let indented : Text := ['\t', ' ', ' ', 'x', '\r', '\n', 'y', '\n', '\t', '😀', 'z']
    ∃ plan, indent (ofText text).source ss settings .more = some (.edit plan)
      ∧ plan.apply text = .ok indented
      ∧ plan.selections = [⟨⟨1, 0⟩, ⟨0, 3⟩⟩, .cursor ⟨2, 3⟩]
      ∧ text.Indented settings indented 0 6
      ∧ text.MovesTo indented ⟨2, 4⟩ ⟨2, 3⟩ := by
  intro text ss settings indented
  have hplan : indent (ofText text).source ss settings .more
      = some (.edit ⟨[⟨⟨0, 0⟩, ⟨0, 2⟩, ['\t', ' ', ' ']⟩, ⟨⟨2, 0⟩, ⟨2, 2⟩, ['\t']⟩],
        [⟨⟨1, 0⟩, ⟨0, 3⟩⟩, .cursor ⟨2, 3⟩]⟩) := by cbv
  have hsums : text.SumsFit settings .more ss := by decide +kernel
  obtain ⟨plan, u, hplan', happly, -, htouched, -, hmoves⟩ :=
    (indent_reindents (ofText text) ss settings .more (by decide +kernel)).2 hsums
  obtain rfl := KeyOutcome.edit.inj (Option.some.inj (hplan.symm.trans hplan'))
  have hindented : u = indented := Except.ok.inj (happly.symm.trans (by decide +kernel))
  subst hindented
  have hsort : Selection.sortByStart ss = [⟨⟨1, 0⟩, ⟨0, 1⟩⟩, .cursor ⟨2, 4⟩] := by cbv
  have hwidth : IndentDirection.more.newWidth settings.indentUnit.toNat
      ((text.line 0).indentation.blankWidth settings.tabStop) = 6 := by decide +kernel
  rw [hsort] at hmoves
  cases hmoves with
  | cons _ hrest =>
    cases hrest with
    | cons hcursor _ => exact ⟨_, hplan, happly, rfl, hwidth ▸ htouched 0 (by decide), hcursor.1⟩

end EditorCore
