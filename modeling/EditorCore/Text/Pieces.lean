import EditorCore.Text.Columns

/-!
# Pieces of a text

A text is cut at every occurrence of a separator, so there is one piece more
than there are separators, and an empty one wherever two of them meet.
-/

namespace EditorCore.Text

/-- **The pieces between the separators.** -/
def pieces (separator : Char) : Text → List Text
  | [] => [[]]
  | c :: t =>
    if c = separator then [] :: pieces separator t
    else (pieces separator t).modifyHead (c :: ·)

theorem pieces_ne_nil (separator : Char) (t : Text) : t.pieces separator ≠ [] := by
  cases t with
  | nil => simp [pieces]
  | cons c t =>
    have := pieces_ne_nil separator t
    unfold pieces
    split <;> simp_all [List.modifyHead]
    split <;> simp_all

end EditorCore.Text
