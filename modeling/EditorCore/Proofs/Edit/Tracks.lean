import EditorCore.Edit.Shift
import EditorCore.Proofs.Edit.Linewise

/-!
# Planned selections follow the edits

The selections of a plan refer to the text after its edits, but a command
computes them from the columns it was given: by what it has planned so far
it moves a column to the right, or to the left when it removes. A plan
**tracks** its edits when its selections stay on the lines of the text and,
on each of them, within the width that the line has once the edits are made
(`EditPlan.Tracks`). That width is the one the edits account for: it counts
a carriage return that has come to end the line.

What a command has planned so far is kept in a log, and what it will still
plan is the rest of its edits. So the invariant of the commands that add to
a line is that a position has moved no further than both account for
together (`Position.Ahead`), and an edit that passes from the one to the
other leaves it as it is (`Position.ahead_cons`).
-/

namespace EditorCore

open TextEdit

/-! ## Words -/

theorem toNat_columnWidth (c : Char) : (columnWidth c).toNat = units c :=
  UInt32.toNat_ofNat_of_lt' (Nat.lt_of_le_of_lt (units_le_two c) (by decide))

theorem toNat_add_le (a b : UInt32) : (a + b).toNat ≤ a.toNat + b.toNat := by
  rw [UInt32.toNat_add]
  exact Nat.mod_le _ _

theorem toNat_lt_of_lt_ofNat {line : UInt32} {n : Nat} (h : line < .ofNat n) :
    line.toNat < n :=
  (UInt32.lt_iff_toNat_lt.1 h).trans_le (UInt32.toNat_ofNat.trans_le (Nat.mod_le _ _))

/-! ## Plans that track their edits -/

/-- **A position lies within a text with edits made to it**: on one of its
lines, and no further than the edits account for. -/
def Text.Reach (t : Text) (es : List TextEdit) (p : Position) : Prop :=
  p.line < .ofNat t.segments.length
    ∧ p.column.toNat + removed p.line.toNat es
      ≤ (t.line p.line.toNat).width + inserted p.line.toNat es

theorem Text.Reach.line_lt {t : Text} {es : List TextEdit} {p : Position} (h : t.Reach es p) :
    p.line.toNat < t.segments.length := toNat_lt_of_lt_ofNat h.1

/-- **The planned selections of a plan follow its edits.** -/
structure EditPlan.Tracks (plan : EditPlan) (t : Text) : Prop where
  ascending : Ascending plan.edits
  within : ∀ e ∈ plan.edits, e.Within t
  reach : ∀ s ∈ plan.selections, t.Reach plan.edits s.anchor ∧ t.Reach plan.edits s.head

/-- A plan that follows its edits makes them line by line. -/
theorem EditPlan.Tracks.segment_of_apply {plan : EditPlan} {t u : Text} (h : plan.Tracks t)
    (happly : plan.apply t = .ok u) :
    u.segments.length = t.segments.length ∧ ∀ i, u.segment i = t.edited i plan.edits := by
  rw [EditPlan.apply_of_ascending h.ascending] at happly
  rw [← Except.ok.inj happly]
  exact Text.segment_foldr_replace h.ascending h.within

/-- **No carriage return comes to end a line** by the edits of a plan. -/
def EditPlan.KeepsEndings (plan : EditPlan) (t : Text) : Prop :=
  ∀ i, (t.edited i plan.edits).getLast? = some '\r' → (t.segment i).getLast? = some '\r'

/-- **Where a carriage return comes to end a line**, a planned cursor stands
right after it. -/
def EditPlan.MarksExposed (plan : EditPlan) (t : Text) : Prop :=
  ∀ i, (t.edited i plan.edits).getLast? = some '\r' → (t.segment i).getLast? ≠ some '\r' →
    ∃ s ∈ plan.selections, s.head.line.toNat = i
      ∧ (t.line i).width + inserted i plan.edits ≤ s.head.column.toNat + removed i plan.edits

/-! ## Sums over the edits of a line -/

namespace TextEdit

variable {size : TextEdit → Nat} {i : Nat} {e : TextEdit} {es : List TextEdit}

/-- A size that no edit has sums up to nothing. -/
theorem sumOn_eq_zero (h : ∀ e ∈ es, e.start.line.toNat = i → size e = 0) :
    sumOn size i es = 0 := by
  induction es with
  | nil => rfl
  | cons e es ih =>
    obtain ⟨he, hes⟩ := List.forall_mem_cons.1 h
    rw [sumOn, ih hes]
    split_ifs with hi
    · exact he hi
    · rfl

/-- With one edit a line, the sum is the size of that edit. -/
theorem sumOn_eq_of_mem (h : es.Pairwise fun e f => e.start.line.toNat < f.start.line.toNat)
    (he : e ∈ es) : sumOn size e.start.line.toNat es = size e := by
  induction es with
  | nil => exact absurd he List.not_mem_nil
  | cons f es ih =>
    obtain ⟨hf, hes⟩ := List.pairwise_cons.1 h
    rcases List.mem_cons.1 he with rfl | he
    · have hrest : sumOn size e.start.line.toNat es = 0 :=
        sumOn_eq_zero fun f hf' hi => absurd hi (hf f hf').ne'
      rw [sumOn_cons_self, hrest, Nat.add_zero]
    · rw [sumOn_cons_of_ne size (hf e he).ne, ih hes he]

/-- Insertions remove nothing. -/
theorem removed_eq_zero (h : ∀ e ∈ es, e.stop = e.start) : removed i es = 0 :=
  sumOn_eq_zero fun e he _ => by rw [h e he, Nat.sub_self]

/-- An insertion on a line of a text. -/
theorem within_insert {t : Text} {p : Position} {text : Text}
    (hp : p.line.toNat < t.segments.length) (htext : '\n' ∉ text) : (insert p text).Within t :=
  ⟨rfl, hp, htext, by
    show _ = _ + (p.column.toNat - p.column.toNat)
    rw [Nat.sub_self]
    rfl⟩

end TextEdit

/-! ## What a log has for a line -/

namespace ShiftLog

/-- The columns a log has for a line, as a number. -/
def total : ShiftLog → UInt32 → Nat
  | [], _ => 0
  | (l, width) :: rest, line => (if l = line then width.toNat else 0) + total rest line

/-- Columns are counted modulo the size of a word. -/
theorem toNat_on (log : ShiftLog) (line : UInt32) :
    (log.on line).toNat = log.total line % 2 ^ 32 := by
  induction log with
  | nil => rfl
  | cons entry log ih =>
    obtain ⟨l, width⟩ := entry
    rw [on, total]
    split_ifs
    · rw [UInt32.toNat_add, ih, Nat.mod_add_mod, Nat.add_comm]
    · rw [ih, Nat.zero_add]

theorem toNat_on_le (log : ShiftLog) (line : UInt32) : (log.on line).toNat ≤ log.total line :=
  toNat_on log line ▸ Nat.mod_le _ _

/-- An edit that is logged counts as much as one that is still planned. -/
theorem total_cons_add_sumOn (size : TextEdit → Nat) {e : TextEdit} {width : UInt32}
    (h : size e = width.toNat) (log : ShiftLog) (es : List TextEdit) (line : UInt32) :
    total ((e.start.line, width) :: log) line + sumOn size line.toNat es
      = log.total line + sumOn size line.toNat (e :: es) := by
  rw [total, sumOn, h]
  simp only [UInt32.toNat_inj]
  omega

end ShiftLog

/-- **A position has moved no further than the edits account for**, those
logged and those still planned. -/
def Position.Ahead (log : ShiftLog) (es : List TextEdit) (p q : Position) : Prop :=
  q.line = p.line
    ∧ q.column.toNat ≤ p.column.toNat + (log.total p.line + inserted p.line.toNat es)

namespace Position

variable {log : ShiftLog} {e : TextEdit} {es : List TextEdit} {p q : Position}

theorem ahead_cons {width : UInt32} (h : e.newText.width = width.toNat) :
    Ahead ((e.start.line, width) :: log) es p q ↔ Ahead log (e :: es) p q := by
  unfold Ahead inserted
  rw [ShiftLog.total_cons_add_sumOn (fun e => e.newText.width) h]

/-- From a position within the text, insertions move to one within the text
they are made to. -/
theorem Ahead.reach {t : Text} (h : Ahead [] es p q) (hp : t.Reach [] p)
    (hes : ∀ e ∈ es, e.stop = e.start) : t.Reach es q := by
  obtain ⟨hline, hcolumn⟩ := h
  obtain ⟨hlt, hle⟩ := hp
  refine ⟨hline ▸ hlt, ?_⟩
  rw [hline, removed_eq_zero hes]
  change p.column.toNat + 0 ≤ _ + 0 at hle
  change _ ≤ _ + (0 + _) at hcolumn
  omega

end Position

end EditorCore
