import EditorCore.Proofs.Document.Tiling
import EditorCore.Proofs.Token.Prefix

/-!
# The lines that end inside a text

However a text goes on, the lines that end inside it stay as they are, but their tokens
come from lexing all of the buffer, and some that start on these lines are closed only
below them, or not at all. What that changes is whether a piece is one of a string over
many lines or of an error, and no more (`Document.map_ifClosed_lineTokens_append`).
-/

namespace EditorCore

namespace LineToken

/-- The token, were it closed further on. -/
def ifClosed (t : LineToken) : LineToken := ⟨t.kind.ifClosed, t.text, t.start, t.stop⟩

end LineToken

theorem Lexeme.map_ifClosed_placeRow (column : Nat) (ls : List Lexeme) :
    (placeRow column ls).map LineToken.ifClosed = placeRow column (ls.map Lexeme.ifClosed) := by
  induction ls generalizing column with
  | nil => rfl
  | cons l ls ih => exact congrArg _ (ih _)

namespace Text

/-- **The lines that end inside a text are lines of every longer one**, and
start where they did. -/
theorem before_segment_append {p : Text} (hp : Ended p) {i : Nat} (hi : i < p.count '\n')
    (r : Text) : (p ++ r).before i = p.before i ∧ (p ++ r).segment i = p.segment i := by
  obtain ⟨q, rfl⟩ := List.getLast?_eq_some_iff.1 hp
  have hlt : i < (segments q).length := by
    rw [length_segments]
    rwa [List.count_append] at hi
  have hlong : segments (q ++ ['\n'] ++ r) = segments q ++ segments r := by
    rw [List.append_assoc, List.singleton_append, segments_append_newline]
  have hshort : segments (q ++ ['\n']) = segments q ++ [[]] := segments_append_newline q []
  rw [before, before, segment, segment, hlong, hshort, List.take_append_of_le_length hlt.le,
    List.take_append_of_le_length hlt.le, List.getD_append _ _ _ _ hlt,
    List.getD_append _ _ _ _ hlt]
  exact ⟨rfl, rfl⟩

end Text

namespace Document

open Text

variable {p : Text} {line : UInt32}

theorem lineText_append (hp : Ended p) (hline : line.toNat < p.count '\n') (r : Text) :
    (ofText (p ++ r)).lineText line = (ofText p).lineText line := by
  rw [lineText_eq_line, lineText_eq_line, Text.line, Text.line]
  exact congrArg Text.dropReturn (before_segment_append hp hline r).2

/-- **The tokens of a line that ends inside a text** do not depend on what
follows the text, but for errors. -/
theorem map_ifClosed_lineTokens_append (hp : Ended p) (hline : line.toNat < p.count '\n')
    (r : Text) :
    ((ofText (p ++ r)).lineTokens line).map LineToken.ifClosed
      = ((ofText p).lineTokens line).map LineToken.ifClosed := by
  have hstop : (p.before line.toNat).length + ((ofText p).lineText line).length ≤ p.length := by
    have hin : line.toNat < p.segments.length := by
      rw [length_segments]
      exact hline.trans (Nat.lt_succ_self _)
    have hlength := congrArg List.length (before_append_line_append hin)
    rw [List.length_append, List.length_append] at hlength
    rw [lineText_eq_line]
    exact hlength ▸ Nat.le_add_right _ _
  have hbefore : (ofText (p ++ r)).text.before line.toNat = p.before line.toNat :=
    (before_segment_append hp hline r).1
  rw [lineTokens_eq_placeRow, lineTokens_eq_placeRow, Lexeme.map_ifClosed_placeRow,
    Lexeme.map_ifClosed_placeRow, row, row, lineText_append hp hline, hbefore]
  exact congrArg (Lexeme.placeRow 0) (Lexeme.map_ifClosed_cut_append (.inr hp) r hstop)

end Document

end EditorCore
