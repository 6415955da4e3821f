import EditorCore.Proofs.Edit.Blanks
import EditorCore.Proofs.Edit.Touched
import EditorCore.Proofs.Text.Lines

/-!
# Sums of widths

Tabs and steps can be of any size that is a word, so sums of them need not be words. A
tab first adds all of the tab size to the column it starts in, and that may be too much
even where the tab stop is not. A step adds to the width of the blanks, and an end of a
selection after them moves by the number of new ones.

What indentation plans is told here for a text, with widths that are numbers of any size
(`Text.indentPlan`). The command gives this plan exactly if all these sums are words
(`Text.SumsFit`, `Checked.computes_indent`), and else none. The differences are never a
problem: what is subtracted is part of what it is subtracted from.
-/

namespace EditorCore

open Text

/-! ## The plan -/

namespace Text

/-- **What becomes of a line**, in terms of its blanks. -/
def reindentAt? (t : Text) (settings : IndentSettings) (direction : IndentDirection)
    (line : UInt32) : Option Reindent :=
  let old := (t.line line.toNat).indentation
  let new := settings.newBlanks direction old
  if new = old then none else some ⟨line, .ofNat old.length, new⟩

/-- What becomes of the touched lines whose blanks change. -/
def reindents (t : Text) (settings : IndentSettings) (direction : IndentDirection)
    (ss : List Selection) : List Reindent :=
  (touchedLines ss).filterMap (t.reindentAt? settings direction)

end Text

/-- Where a position moves with the blanks of its line. -/
def Position.movedBy (changes : List Reindent) (p : Position) : Position :=
  match changes.find? (·.line = p.line) with
  | none => p
  | some r =>
    ⟨p.line,
      if p.column ≤ r.oldLength then r.newLength else p.column - r.oldLength + r.newLength⟩

/-- **The plan for the touched lines.** -/
def Text.indentPlan (t : Text) (settings : IndentSettings) (direction : IndentDirection)
    (ss : List Selection) : EditPlan :=
  let changes := t.reindents settings direction ss
  ⟨changes.map (·.toEdit), (Selection.sortByStart ss).map (Selection.mapEnds (·.movedBy changes))⟩

section

variable {t : Text} {settings : IndentSettings} {direction : IndentDirection}
  {ss : List Selection} {line : UInt32} {r : Reindent}

/-- A line is reindented in place. -/
theorem Text.line_of_reindentAt? (h : t.reindentAt? settings direction line = some r) :
    r.line = line := by
  unfold reindentAt? at h
  dsimp only at h
  split_ifs at h
  rw [← Option.some.inj h]

/-- Only the blanks of touched lines change. -/
theorem Text.mem_reindents (h : r ∈ t.reindents settings direction ss) :
    Selection.Touched ss r.line.toNat ∧ t.reindentAt? settings direction r.line = some r := by
  obtain ⟨line, hline, hr⟩ := List.mem_filterMap.1 h
  obtain rfl := line_of_reindentAt? hr
  exact ⟨mem_touchedLines.1 hline, hr⟩

/-- The lines whose blanks change come in order. -/
theorem Text.pairwise_reindents (t : Text) (settings : IndentSettings)
    (direction : IndentDirection) (ss : List Selection) :
    (t.reindents settings direction ss).Pairwise fun r q => r.line.toNat < q.line.toNat := by
  rw [reindents, List.pairwise_filterMap]
  refine (pairwise_touchedLines ss).imp fun {l m} hlm r hr q hq => ?_
  rwa [line_of_reindentAt? hr, line_of_reindentAt? hq]

/-- **The change of a line** is what becomes of it, where it is touched. -/
theorem Text.find?_reindents (t : Text) (settings : IndentSettings)
    (direction : IndentDirection) (ss : List Selection) (line : UInt32) :
    (t.reindents settings direction ss).find? (·.line = line)
      = if Selection.Touched ss line.toNat then t.reindentAt? settings direction line
        else none := by
  simp only [← mem_touchedLines, reindents]
  induction touchedLines ss with
  | nil => rfl
  | cons l lines ih =>
    rw [List.filterMap_cons]
    cases hr : t.reindentAt? settings direction l with
    | none =>
      dsimp only
      rw [ih]
      by_cases hl : line = l
      · subst hl
        simp [hr]
      · simp [hl]
    | some r =>
      dsimp only
      rw [List.find?_cons, line_of_reindentAt? hr]
      by_cases hl : l = line
      · subst hl
        simp [hr]
      · simp [hl, ih, Ne.symm hl]

/-- Positions stay on their lines. -/
theorem Position.line_movedBy (changes : List Reindent) (p : Position) :
    (p.movedBy changes).line = p.line := by
  unfold movedBy
  split <;> rfl

/-- Only positions on touched lines move. -/
theorem Text.touched_of_movedBy_ne {p : Position}
    (hne : p.movedBy (t.reindents settings direction ss) ≠ p) :
    Selection.Touched ss p.line.toNat := by
  by_contra hnot
  refine hne ?_
  rw [Position.movedBy, find?_reindents, if_neg hnot]

end

/-! ## Sums that are words -/

namespace Text

/-- **An end moves to a column that is a word**, if it comes after blanks that change. -/
def EndFits (t : Text) (settings : IndentSettings) (direction : IndentDirection)
    (ss : List Selection) (p : Position) : Prop :=
  let old := (t.line p.line.toNat).indentation
  let new := settings.newBlanks direction old
  Selection.Touched ss p.line.toNat → new ≠ old → old.length < p.column.toNat →
    p.column.toNat - old.length + new.length < UInt32.size

instance (t : Text) (settings : IndentSettings) (direction : IndentDirection)
    (ss : List Selection) (p : Position) : Decidable (t.EndFits settings direction ss p) :=
  inferInstanceAs (Decidable (_ → _ → _ → _))

/-- **All sums are words** when the lines that selections touch are indented. -/
structure SumsFit (t : Text) (settings : IndentSettings) (direction : IndentDirection)
    (ss : List Selection) : Prop where
  tabs : ∀ i, Selection.Touched ss i → (t.line i).indentation.TabsFit settings.tabStop 0
  widths : ∀ i, Selection.Touched ss i → settings.WidthsFit direction (t.line i).indentation
  ends : ∀ s ∈ ss, t.EndFits settings direction ss s.anchor ∧ t.EndFits settings direction ss s.head

variable {t : Text} {settings : IndentSettings} {direction : IndentDirection}
  {ss : List Selection}

/-- All sums are words, told for the lines and the selections as they come. -/
theorem sumsFit_iff : t.SumsFit settings direction ss ↔
    (∀ line ∈ touchedLines ss,
      (t.line line.toNat).indentation.TabsFit settings.tabStop 0
        ∧ settings.WidthsFit direction (t.line line.toNat).indentation)
    ∧ ∀ s ∈ Selection.sortByStart ss,
      t.EndFits settings direction ss s.anchor ∧ t.EndFits settings direction ss s.head := by
  simp only [mem_touchedLines, Selection.mem_sortByStart]
  constructor
  · exact fun h => ⟨fun line hline => ⟨h.tabs _ hline, h.widths _ hline⟩, h.ends⟩
  · rintro ⟨hlines, hends⟩
    refine ⟨fun i hi => ?_, fun i hi => ?_, hends⟩ <;> obtain ⟨line, rfl⟩ := hi.exists_toNat_eq
    · exact (hlines line hi).1
    · exact (hlines line hi).2

instance : Decidable (t.SumsFit settings direction ss) :=
  decidable_of_iff (∀ s ∈ ss, (∀ i < s.stop.line.toNat + 1, s.Touches i →
      (t.line i).indentation.TabsFit settings.tabStop 0
        ∧ settings.WidthsFit direction (t.line i).indentation)
    ∧ t.EndFits settings direction ss s.anchor ∧ t.EndFits settings direction ss s.head)
  ⟨fun h => ⟨fun i ⟨s, hs, hi⟩ => ((h s hs).1 i (Nat.lt_succ_of_le hi.2.1) hi).1,
      fun i ⟨s, hs, hi⟩ => ((h s hs).1 i (Nat.lt_succ_of_le hi.2.1) hi).2,
      fun s hs => (h s hs).2⟩,
    fun h s hs => ⟨fun i _ hi => ⟨h.tabs i ⟨s, hs, hi⟩, h.widths i ⟨s, hs, hi⟩⟩, h.ends s hs⟩⟩

end Text

/-! ## The command -/

namespace Checked

variable {source : TokenSource} {t : Text} {ss : List Selection} {settings : IndentSettings}
  {direction : IndentDirection} {p : Position}

/-- **What becomes of a line is computed** exactly if its sums are words. -/
theorem computes_reindent? (hsource : ∀ line, source.lineText line = t.line line.toNat)
    (settings : IndentSettings) (direction : IndentDirection) (line : UInt32) :
    Computes (reindent? source settings direction line)
      ((t.line line.toNat).indentation.TabsFit settings.tabStop 0
        ∧ settings.WidthsFit direction (t.line line.toNat).indentation)
      (t.reindentAt? settings direction line) := by
  have hpos : 0 < (max settings.tabSize 1).toNat :=
    settings.toNat_max_one ▸ settings.tabStop_pos
  have hwidth := computes_indentationWidth hpos (t.line line.toNat).indentation
  rw [settings.toNat_max_one] at hwidth
  rw [reindent?, hsource]
  refine (hwidth.bind fun hfits => ?_).congr and_assoc
  have htarget := computes_target direction settings
    (.ofNat ((t.line line.toNat).indentation.blankWidth settings.tabStop))
  rw [UInt32.toNat_ofNat_of_lt' hfits.2] at htarget
  refine Computes.congr (htarget.bind fun _ => ?_) (and_iff_left trivial)
  exact computes_pure _

/-- A position stays where its line does not change. -/
theorem computes_shiftPosition_of_find?_eq_none {changes : List Reindent}
    (h : changes.find? (·.line = p.line) = none) :
    Computes (shiftPosition changes p) True (p.movedBy changes) := by
  unfold shiftPosition Position.movedBy
  rw [h]
  exact computes_pure p

/-- A position of a line that changes is moved without overflow exactly if its distance
from the old blanks and the number of new ones add up to a word. -/
theorem computes_shiftPosition_of_find? {changes : List Reindent} {r : Reindent}
    (h : changes.find? (·.line = p.line) = some r) :
    Computes (shiftPosition changes p)
      (r.oldLength.toNat < p.column.toNat →
        p.column.toNat - r.oldLength.toNat + r.newLength.toNat < UInt32.size)
      (p.movedBy changes) := by
  unfold shiftPosition Position.movedBy
  rw [h]
  dsimp only
  split_ifs with hle
  · rw [UInt32.le_iff_toNat_le] at hle
    exact (computes_pure _).congr (iff_of_true trivial fun hlt => absurd hle (Nat.not_le.2 hlt))
  · have hold : r.oldLength ≤ p.column := UInt32.le_of_lt (UInt32.not_le.1 hle)
    rw [UInt32.le_iff_toNat_le, Nat.not_le] at hle
    refine Computes.congr (Computes.bind (computes_sub p.column r.oldLength) fun _ =>
      Computes.bind (computes_add _ r.newLength) fun _ => computes_pure _) ?_
    rw [and_iff_right hold, and_true, forall_prop_of_true hle, UInt32.toNat_sub_of_le _ _ hold]

/-- **An end of a selection is moved without overflow** exactly if the column it moves to
is a word. -/
theorem computes_shiftPosition (hwidths : Selection.Touched ss p.line.toNat →
      settings.WidthsFit direction (t.line p.line.toNat).indentation) :
    Computes (shiftPosition (t.reindents settings direction ss) p)
      (t.EndFits settings direction ss p) (p.movedBy (t.reindents settings direction ss)) := by
  have hfind := t.find?_reindents settings direction ss p.line
  by_cases htouched : Selection.Touched ss p.line.toNat
  · rw [if_pos htouched, reindentAt?] at hfind
    split_ifs at hfind with hsame
    · exact (computes_shiftPosition_of_find?_eq_none hfind).congr
        (iff_of_true trivial fun _ hne => absurd hsame hne)
    · refine (computes_shiftPosition_of_find? hfind).congr ?_
      dsimp only [Reindent.newLength]
      rw [UInt32.toNat_ofNat_of_lt' (hwidths htouched).length_lt,
        UInt32.toNat_ofNat_of_lt' (hwidths htouched).length_newBlanks_lt]
      exact (Iff.trans (forall_prop_of_true htouched) (forall_prop_of_true hsame)).symm
  · rw [if_neg htouched] at hfind
    exact (computes_shiftPosition_of_find?_eq_none hfind).congr
      (iff_of_true trivial fun h => absurd h htouched)

/-- Both ends of a selection are moved. -/
theorem computes_mapEnds {f : Position → Option Position} {P : Position → Prop}
    {g : Position → Position} (h : ∀ p, Computes (f p) (P p) (g p)) (s : Selection) :
    Computes (do
        let anchor ← f s.anchor
        let head ← f s.head
        return (⟨anchor, head⟩ : Selection))
      (P s.anchor ∧ P s.head) (s.mapEnds g) := by
  refine Computes.congr (Computes.bind (h s.anchor) fun _ =>
    Computes.bind (h s.head) fun _ => computes_pure _) ?_
  rw [and_true]

/-- **Lines are indented exactly if all sums are words.** The lines come first, and where
their widths are words, so are the lengths of their blanks. -/
theorem computes_indent (hsource : ∀ line, source.lineText line = t.line line.toNat)
    (ss : List Selection) (settings : IndentSettings) (direction : IndentDirection) :
    Computes (indent source ss settings direction) (t.SumsFit settings direction ss)
      (.edit (t.indentPlan settings direction ss)) := by
  have hlines := computes_mapM (l := touchedLines ss) fun line _ =>
    computes_reindent? hsource settings direction line
  have hchanges : ((touchedLines ss).map (t.reindentAt? settings direction)).filterMap id
      = t.reindents settings direction ss := List.filterMap_map
  rw [indent]
  refine Computes.congr (hlines.bind fun hfits => ?_) sumsFit_iff.symm
  rw [hchanges]
  have hends : ∀ p, Computes (shiftPosition (t.reindents settings direction ss) p) _ _ :=
    fun p => computes_shiftPosition fun hp => (hfits _ (mem_touchedLines.2 hp)).2
  refine Computes.congr (Computes.bind (computes_mapM fun s _ => computes_mapEnds hends s)
    fun _ => ?_) (and_iff_left trivial)
  exact computes_pure _

end Checked

end EditorCore
