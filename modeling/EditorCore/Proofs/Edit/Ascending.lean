import EditorCore.Proofs.Edit.Offsets

/-!
# Edits in ascending order

A plan is refused where one of its edits starts before the one before it
ends, in bytes. Bytes do not fall from one position to a later one, so it is
enough that no edit starts at an earlier **position** than the one before it
ends (`TextEdit.Ascending`), and then the plan applies to any text at all
(`EditPlan.apply_of_ascending`).
-/

namespace EditorCore

namespace TextEdit

/-- **Edits in ascending order**: none stops before it starts, and none
starts before an earlier one stops. -/
structure Ascending (es : List TextEdit) : Prop where
  start_le_stop : ∀ e ∈ es, e.start.rank ≤ e.stop.rank
  pairwise : es.Pairwise fun e f => e.stop.rank ≤ f.start.rank

/-- The splice of an edit that stops no earlier than it starts. -/
theorem stop_locate {e : TextEdit} (h : e.start.rank ≤ e.stop.rank) (t : Text) :
    (e.locate t).stop = t.offset e.stop :=
  Nat.max_eq_right (Text.offset_mono h)

theorem Ascending.tail {e : TextEdit} {es : List TextEdit} (h : Ascending (e :: es)) :
    Ascending es :=
  ⟨fun f hf => h.start_le_stop f (List.mem_cons_of_mem e hf), (List.pairwise_cons.1 h.pairwise).2⟩

end TextEdit

namespace EditPlan

open TextEdit

/-- Edits in ascending order that start no earlier than `stop` do not
overlap. -/
theorem overlap?_eq_none {t : Text} {stop : Nat} {es : List TextEdit} (h : Ascending es)
    (hstop : ∀ e ∈ es, stop ≤ t.offset e.start) : overlap? t stop es = none := by
  induction es generalizing stop with
  | nil => rfl
  | cons e es ih =>
    have hle := h.start_le_stop e List.mem_cons_self
    have hstart : ¬ (e.locate t).start < stop := Nat.not_lt.2 (hstop e List.mem_cons_self)
    rw [overlap?, if_neg hstart, stop_locate hle]
    exact ih h.tail fun f hf =>
      Text.offset_mono ((List.pairwise_cons.1 h.pairwise).1 f hf)

/-- **A plan in ascending order applies to any text.** -/
theorem apply_of_ascending {plan : EditPlan} (h : Ascending plan.edits) (t : Text) :
    plan.apply t = .ok ((plan.edits.map (·.locate t)).foldr Splice.replace t) := by
  rw [apply, overlap?_eq_none h fun _ _ => Nat.zero_le _]

end EditPlan

end EditorCore
