import EditorCore.Proofs.Edit.Reindent

/-!
# Outdenting what was indented

A host that presses the key for indenting and then, on the planned selections, the one
for outdenting should find the lines where they were. The second key has to touch the
same lines as the first for that. Its selections are others, though: their ends have
moved, and a range and a cursor among the blanks may have become one.

No line gets lost that way, since an end never moves to column 0: a line whose blanks
change has blanks afterwards (`Text.Indented.ne_nil_or_segment_eq`). Nor does the second key
fail where the first did not: the blanks it writes are no more than there were at first, or
else than there are now (`Text.MovesTo.endFits_less`). So every touched
line gets wider by one step and narrower again, and what is left is the canonical form
of its blanks (`Session.handleKey_outdent_indent`).
-/

namespace EditorCore

open Text

/-! ## Lines indented in turn -/

namespace Text

variable {settings : IndentSettings} {t u v : Text} {ss : List Selection}
  {i width width' : Nat} {p q : Position}

/-- A line that is indented twice has the last width. -/
theorem Indented.trans (h : t.Indented settings u i width) (h' : u.Indented settings v i width') :
    t.Indented settings v i width' :=
  ⟨h'.afterBlanks_eq.trans h.afterBlanks_eq, h'.blankWidth_eq, h'.canonical⟩

/-- **Canonical blanks come back**: a line that is indented to the width it had is the
same line, if its blanks were canonical. -/
theorem Indented.segment_eq
    (h : t.Indented settings u i ((t.line i).indentation.blankWidth settings.tabStop))
    (hcanonical : (t.line i).indentation.IsCanonical settings.tabStop settings.withTabs) :
    u.segment i = t.segment i := by
  have hblanks := h.canonical.eq hcanonical settings.tabStop_pos h.blankWidth_eq
  rw [← indentation_append_afterBlanks u, ← indentation_append_afterBlanks t, hblanks,
    h.afterBlanks_eq]

/-- A line that gets wider has blanks, or had none and stays the same. -/
theorem Indented.ne_nil_or_segment_eq {unit : Nat}
    (h : t.Indented settings u i ((t.line i).indentation.blankWidth settings.tabStop + unit)) :
    (u.line i).indentation ≠ [] ∨ u.segment i = t.segment i := by
  by_cases hnil : (u.line i).indentation = []
  · right
    have hwidth := h.blankWidth_eq
    have hle := length_le_blankWidth settings.tabStop_pos (t.line i).indentation
    rw [hnil, show blankWidth settings.tabStop [] = 0 from rfl] at hwidth
    have hnil' : (t.line i).indentation = [] := List.eq_nil_of_length_eq_zero (by omega)
    rw [← indentation_append_afterBlanks u, ← indentation_append_afterBlanks t, hnil, hnil',
      h.afterBlanks_eq]
  · exact .inl hnil

/-- **No position moves to column 0** of a line that has blanks. -/
theorem MovesTo.eq_of_column_eq_zero (h : t.MovesTo u p q)
    (hblanks : (u.line p.line.toNat).indentation ≠ [] ∨ u.segment p.line.toNat
      = t.segment p.line.toNat) (hzero : q.column = 0) : q = p := by
  by_cases hsame : u.segment p.line.toNat = t.segment p.line.toNat
  · exact h.unmoved hsame
  · have hpos := width_pos (hblanks.resolve_right hsame)
    have hcolumn : q.column.toNat = 0 := congrArg UInt32.toNat hzero
    rcases Nat.lt_or_ge (t.line p.line.toNat).indentation.width p.column.toNat with hlt | hle
    · have hkeeps := (h.keeps_right hsame hlt).2
      omega
    · have hend := h.to_blanks hsame hle
      omega

/-- **An end that has moved with a wider line can move back.** With tabs, the blanks before it
come to be no more than there were at first, and without no more than there are now. -/
theorem MovesTo.endFits_less (h : t.MovesTo u p q)
    (hmore : Selection.Touched ss q.line.toNat →
      settings.WidthsFit .less (u.line p.line.toNat).indentation
      ∧ t.Indented settings u p.line.toNat
        ((t.line p.line.toNat).indentation.blankWidth settings.tabStop
          + settings.indentUnit.toNat)) :
    u.EndFits settings .less ss q := by
  intro htouched _ hlt
  obtain ⟨hfits, hindented⟩ := hmore htouched
  rw [h.line_eq] at hlt ⊢
  have hpos := settings.tabStop_pos
  have hwidth := IndentSettings.blankWidth_newBlanks hfits
  have hcanonical := settings.isCanonical_newBlanks .less (u.line p.line.toNat).indentation
  have hnow := hindented.canonical
  have hfirst := hindented.blankWidth_eq
  rw [hfirst, IndentDirection.newWidth, Nat.add_sub_cancel] at hwidth
  have hpword := p.column.toNat_lt
  have hqword := q.column.toNat_lt
  show _ < 2 ^ 32
  cases hmode : settings.withTabs with
  | false =>
    rw [hmode] at hcanonical hnow
    have hnew := hcanonical.length_eq hpos
    have hold := hnow.length_eq hpos
    rw [hwidth] at hnew
    rw [hfirst] at hold
    omega
  | true =>
    rw [hmode] at hcanonical
    have hnew := hcanonical.length_le hpos hwidth
    have hbefore := width_indentation (t.line p.line.toNat)
    have hafter := width_indentation (u.line p.line.toNat)
    by_cases hsame : u.segment p.line.toNat = t.segment p.line.toNat
    · rw [← show u.line p.line.toNat = t.line p.line.toNat from congrArg dropReturn hsame] at hnew
      omega
    · rcases Nat.lt_or_ge (t.line p.line.toNat).indentation.width p.column.toNat with hright | hle
      · have hkeeps := (h.keeps_right hsame hright).2
        omega
      · -- among the blanks, it has come to the end of them
        have hend := h.to_blanks hsame hle
        omega

end Text

/-! ## The keys for indenting -/

namespace Session

variable {s s' : Session} {key back : Text} {ss : List Selection} {plan : EditPlan}
  {direction : IndentDirection} {i : Nat}

/-- **What a key for indenting does**: it indents the lines that the selections touch in
normal form, and moves their ends along. -/
structure Indents (s s' : Session) (direction : IndentDirection) (ss : List Selection)
    (plan : EditPlan) (move : Position → Position) : Prop where
  config_eq : s'.config = s.config
  /-- There are as many lines as before. -/
  length_eq : s'.source.segments.length = s.source.segments.length
  indented : ∀ i, Selection.Touched (Selection.normalize ss) i →
    s.source.Indented s.config.indentSettings s'.source i
      (direction.newWidth s.config.indentSettings.indentUnit.toNat
        ((s.source.line i).indentation.blankWidth s.config.indentSettings.tabStop))
  segment_eq : ∀ i, ¬ Selection.Touched (Selection.normalize ss) i →
    s'.source.segment i = s.source.segment i
  /-- The planned selections are those of the normal form, with their ends moved. -/
  selections_eq : plan.selections = (Selection.normalize ss).map (Selection.mapEnds move)
  line_eq : ∀ p, (move p).line = p.line
  /-- Only positions on touched lines move. -/
  touched_of_ne : ∀ p, move p ≠ p → Selection.Touched (Selection.normalize ss) p.line.toNat
  /-- The ends of the normal form move with their lines. -/
  movesTo : ∀ t ∈ Selection.normalize ss, s.source.MovesTo s'.source t.anchor (move t.anchor)
    ∧ s.source.MovesTo s'.source t.head (move t.head)
  reach : ∀ t ∈ plan.selections, s'.source.Reach [] t.anchor ∧ s'.source.Reach [] t.head

/-- **A key for indenting indents**, where all sums are words. -/
theorem exists_indents (hkey : KeyBinding.ofName? key = some (.edit (.indent direction)))
    (hinside : s.Inside ss)
    (hsums : s.source.SumsFit s.config.indentSettings direction (Selection.normalize ss)) :
    ∃ plan move, (s.handleKey key ss).2 = .ok (.edited plan)
      ∧ s.Indents (s.handleKey key ss).1 direction ss plan move := by
  have hsource : ∀ line, s.document.source.lineText line = s.source.line line.toNat :=
    s.document.lineText_eq_line
  have hplan := (Checked.computes_indent hsource _ s.config.indentSettings direction).eq hsums
  obtain ⟨hanswer, happly, hconfig⟩ := handleKey_edit hkey hinside hplan
  obtain ⟨htracks, hkeeps⟩ := tracks_indentPlan hsums (reach_normalize hinside)
  obtain ⟨hlength, hseg⟩ := htracks.segment_of_apply happly
  have hinside' := (htracks.reach_iff hkeeps.marksExposed hlength hseg).2 fun ⟨i, hexposed⟩ =>
    hexposed.2 (hkeeps i (hseg i ▸ hexposed.1))
  have hmoves : ∀ p, s.source.EndFits s.config.indentSettings direction _ p →
      s.source.MovesTo (s.handleKey key ss).1.source p (p.movedBy
        (s.source.reindents s.config.indentSettings direction (Selection.normalize ss))) :=
    fun p hp => movesTo_movedBy (hsums.widths _) hp (hseg _)
  refine ⟨_, Position.movedBy _, hanswer, hconfig, hlength, fun i hi => ?_, fun i hi => ?_, ?_,
    Position.line_movedBy _, fun p hne => touched_of_movedBy_ne hne,
    fun t ht => (hsums.ends t ht).imp (hmoves _) (hmoves _), hinside'⟩
  · exact indented_of_touched hi (hsums.widths i hi) (hseg i)
  · rw [hseg]
    exact edited_of_not_touched hi
  · exact congrArg _ (Selection.sortByStart_of_pairwise
      ((Selection.pairwise_normalize ss).imp fun {t _} hgap => t.start_le_stop.trans hgap.le))

namespace Indents

variable {move : Position → Position}

/-- **The planned selections are within the buffer**, where the columns of the touched
lines are words. Those of the other lines stay as they are. -/
theorem inside (h : s.Indents s' direction ss plan move) (hinside : s.Inside ss)
    (hwide : ∀ i, Selection.Touched (Selection.normalize ss) i →
      (s'.source.line i).width < UInt32.size) : s'.Inside plan.selections := by
  have hend : ∀ p, s.document.contains p → s'.source.Reach [] (move p) →
      s'.document.contains (move p) := by
    intro p hp hreach
    by_cases htouched : Selection.Touched (Selection.normalize ss) p.line.toNat
    · exact (Document.contains_iff_reach_of_width (h.line_eq p ▸ hwide _ htouched)).2 hreach
    · have hsame : move p = p := by
        by_contra hne
        exact htouched (h.touched_of_ne p hne)
      have hseg := h.segment_eq _ htouched
      rw [hsame]
      rw [Document.contains_iff_text, Text.line] at hp ⊢
      change p.line < .ofNat s'.source.segments.length
        ∧ p.column ≤ .ofNat (dropReturn (s'.source.segment p.line.toNat)).width
      rw [h.length_eq, hseg]
      exact hp
  have hreach := h.reach
  rw [h.selections_eq] at hreach ⊢
  intro t ht
  obtain ⟨u, hu, rfl⟩ := List.mem_map.1 ht
  have hcontains := Selection.ends_normalize (P := fun p => s.document.contains p) hinside u hu
  exact ⟨hend _ hcontains.1 (hreach _ ht).1, hend _ hcontains.2 (hreach _ ht).2⟩

/-- **After indenting, the planned selections touch the same lines**, although their
normal form may have fewer selections. -/
theorem touched_iff (h : s.Indents s' .more ss plan move) :
    Selection.Touched (Selection.normalize plan.selections) i
      ↔ Selection.Touched (Selection.normalize ss) i := by
  have hzero : ∀ p, s.source.MovesTo s'.source p (move p) → (move p).column = 0 → move p = p := by
    intro p hmoves hcolumn
    refine hmoves.eq_of_column_eq_zero ?_ hcolumn
    by_cases htouched : Selection.Touched (Selection.normalize ss) p.line.toNat
    · exact (h.indented _ htouched).ne_nil_or_segment_eq
    · exact .inr (h.segment_eq _ htouched)
  rw [h.selections_eq]
  exact Selection.touched_normalize_map (Selection.pairwise_normalize ss) h.line_eq
    (fun t ht => (h.movesTo t ht).imp (hzero _) (hzero _)) h.touched_of_ne

/-- **Where a key has indented, all sums are words for the key that outdents.** -/
theorem sumsFit_less (h : s.Indents s' .more ss plan move)
    (hsums : s.source.SumsFit s.config.indentSettings .more (Selection.normalize ss)) :
    s'.source.SumsFit s'.config.indentSettings .less (Selection.normalize plan.selections) := by
  rw [h.config_eq]
  have hfits : ∀ i, Selection.Touched (Selection.normalize ss) i →
      s.config.indentSettings.WidthsFit .less (s'.source.line i).indentation := by
    intro i hi
    have hnew := (hsums.widths i hi).2
    rw [← (h.indented i hi).blankWidth_eq] at hnew
    exact ⟨hnew, (Nat.sub_le _ _).trans_lt hnew⟩
  refine ⟨fun i hi => ?_, fun i hi => hfits i (h.touched_iff.1 hi), ?_⟩
  · have htouched := h.touched_iff.1 hi
    exact (h.indented i htouched).canonical.tabsFit s.config.indentSettings.tabStop_pos
      (hfits i htouched).1
  · have hend : ∀ p, s.source.MovesTo s'.source p (move p) →
        s'.source.EndFits s.config.indentSettings .less (Selection.normalize plan.selections)
          (move p) := fun p hmoves => hmoves.endFits_less fun hi =>
      have htouched := h.touched_iff.1 (h.line_eq p ▸ hi)
      ⟨hfits _ htouched, h.indented _ htouched⟩
    refine Selection.ends_normalize fun t ht => ?_
    rw [h.selections_eq] at ht
    obtain ⟨u, hu, rfl⟩ := List.mem_map.1 ht
    exact (h.movesTo u hu).imp (hend _) (hend _)

end Indents

/-- **Outdenting undoes indenting**, up to the form of the blanks. The key for outdenting
on the selections that the one for indenting has planned gives every line that was touched
canonical blanks of the width it had, and leaves the other lines alone; so it restores the
buffer, if those blanks were canonical. All sums of the first key have to be words, and the
columns of the touched lines in between. -/
theorem handleKey_outdent_indent
    (hkey : KeyBinding.ofName? key = some (.edit (.indent .more)))
    (hback : KeyBinding.ofName? back = some (.edit (.indent .less)))
    (hinside : s.Inside ss)
    (hsums : s.source.SumsFit s.config.indentSettings .more (Selection.normalize ss))
    (hwide : ∀ i, Selection.Touched (Selection.normalize ss) i →
      ((s.handleKey key ss).1.source.line i).width < UInt32.size) :
    ∃ plan outdent, (s.handleKey key ss).2 = .ok (.edited plan)
      ∧ ((s.handleKey key ss).1.handleKey back plan.selections).2 = .ok (.edited outdent)
      ∧ let restored := ((s.handleKey key ss).1.handleKey back plan.selections).1.source
        restored.segments.length = s.source.segments.length
        ∧ (∀ i, Selection.Touched (Selection.normalize ss) i →
            s.source.Indented s.config.indentSettings restored i
              ((s.source.line i).indentation.blankWidth s.config.indentSettings.tabStop))
        ∧ (∀ i, ¬ Selection.Touched (Selection.normalize ss) i →
            restored.segment i = s.source.segment i)
        ∧ ((∀ i, Selection.Touched (Selection.normalize ss) i →
              (s.source.line i).indentation.IsCanonical s.config.indentSettings.tabStop
                s.config.indentSettings.withTabs) →
            restored = s.source) := by
  obtain ⟨plan, move, hanswer, hmore⟩ := exists_indents hkey hinside hsums
  have hinside' := hmore.inside hinside hwide
  generalize (s.handleKey key ss).1 = s' at hmore hinside' ⊢
  obtain ⟨outdent, move', hanswer', hless⟩ :=
    exists_indents hback hinside' (hmore.sumsFit_less hsums)
  refine ⟨plan, outdent, hanswer, hanswer', ?_⟩
  dsimp only
  generalize (s'.handleKey back plan.selections).1 = s'' at hless ⊢
  have hindented : ∀ i, Selection.Touched (Selection.normalize ss) i →
      s.source.Indented s.config.indentSettings s''.source i
        ((s.source.line i).indentation.blankWidth s.config.indentSettings.tabStop) := by
    intro i hi
    have hback := hless.indented i (hmore.touched_iff.2 hi)
    rw [hmore.config_eq, (hmore.indented i hi).blankWidth_eq, IndentDirection.newWidth,
      IndentDirection.newWidth, Nat.add_sub_cancel] at hback
    exact (hmore.indented i hi).trans hback
  have hsame : ∀ i, ¬ Selection.Touched (Selection.normalize ss) i →
      s''.source.segment i = s.source.segment i := fun i hi =>
    (hless.segment_eq i (mt hmore.touched_iff.1 hi)).trans (hmore.segment_eq i hi)
  have hlength := hless.length_eq.trans hmore.length_eq
  refine ⟨hlength, hindented, hsame, fun hcanonical => ?_⟩
  refine ext_segment hlength fun i => ?_
  by_cases hi : Selection.Touched (Selection.normalize ss) i
  · exact (hindented i hi).segment_eq (hcanonical i hi)
  · exact hsame i hi

/-- A range that stops in column 0 of a line on which there is a cursor among the blanks.
They become one selection when the line is indented, and it is outdented still; its
blanks, a space and a tab, come back as a tab. -/
theorem handleKey_outdent_indent_merged :
    let s := (new { editor := { tabSize := 4, indentWithTabs := true } }).setSource
      ['x', '\n', ' ', '\t', 'y']
    let ss : List Selection := [⟨⟨0, 0⟩, ⟨1, 0⟩⟩, .cursor ⟨1, 1⟩]
    let tab := s.handleKey "Tab".toList ss
    ∃ plan outdent, tab.2 = .ok (.edited plan)
      ∧ plan.selections = [⟨⟨0, 2⟩, ⟨1, 3⟩⟩, .cursor ⟨1, 3⟩]
      ∧ (tab.1.handleKey "Shift-Tab".toList plan.selections).2 = .ok (.edited outdent)
      ∧ (tab.1.handleKey "Shift-Tab".toList plan.selections).1.source = ['x', '\n', '\t', 'y']
      ∧ s.source.Indented s.config.indentSettings ['x', '\n', '\t', 'y'] 1 4 := by
  intro s ss tab
  have hnormal : Selection.normalize ss = ss := Selection.normalize_of_pairwise (by decide)
  have hstops : ∀ t ∈ Selection.normalize ss, t.stop.line.toNat < 2 := by
    rw [hnormal]
    decide
  have hinside : ∀ t ∈ ss, s.document.contains t.anchor ∧ s.document.contains t.head := by
    decide +kernel
  have hsums : s.source.SumsFit s.config.indentSettings .more (Selection.normalize ss) := by
    rw [hnormal]
    decide +kernel
  have htab : s.handleKey "Tab".toList ss
      = (s.setSource [' ', ' ', 'x', '\n', '\t', ' ', ' ', 'y'],
        .ok (.edited ⟨[⟨⟨0, 0⟩, ⟨0, 0⟩, [' ', ' ']⟩, ⟨⟨1, 0⟩, ⟨1, 2⟩, ['\t', ' ', ' ']⟩],
          [⟨⟨0, 2⟩, ⟨1, 3⟩⟩, .cursor ⟨1, 3⟩]⟩)) := by cbv
  have hwide : ∀ i < 2, ((s.handleKey "Tab".toList ss).1.source.line i).width < UInt32.size := by
    rw [htab]
    decide +kernel
  have hback : KeyBinding.ofName? "Shift-Tab".toList = some (.edit (.indent .less)) := by decide
  obtain ⟨plan, outdent, hplan, houtdent, -, hindented, -⟩ := handleKey_outdent_indent
    (s := s) (by decide) hback hinside hsums (fun i hi => hwide i (hi.lt hstops))
  obtain rfl := KeyResponse.edited.inj (Except.ok.inj ((congrArg Prod.snd htab).symm.trans hplan))
  have hrestored : (tab.1.handleKey "Shift-Tab".toList
      [⟨⟨0, 2⟩, ⟨1, 3⟩⟩, .cursor ⟨1, 3⟩]).1.source = ['x', '\n', '\t', 'y'] := by
    rw [show tab.1 = _ from congrArg Prod.fst htab]
    cbv
  have hwidth : (s.source.line 1).indentation.blankWidth s.config.indentSettings.tabStop = 4 := by
    decide +kernel
  have htouched : Selection.Touched (Selection.normalize ss) 1 := by
    rw [hnormal]
    decide
  refine ⟨_, outdent, hplan, rfl, houtdent, hrestored, ?_⟩
  rw [← hrestored, ← hwidth]
  exact hindented 1 htouched

end Session

end EditorCore
