import EditorCore.Proofs.Document.Tiling
import EditorCore.Proofs.Edit.Marks
import EditorCore.Proofs.Token.Reader

/-!
# Two ways to the byte of a position

The byte of a position is found in two ways. Edits look for it in the text: a
table has the bytes at which lines start (`Text.lineStarts`), a line is read from
there to its line feed, and the carriage return before that is left out. A
document has cut the text into lines already, so that the byte is where the line
starts and then where the column does in the text of the line.

The cut of a document is by segments and the table of an edit by line feeds, and
that both have one notion of a line, its ending, and a last line without one, is
what is proved here (`Document.offset_eq_lineStart_add`). From either one sees that
the byte lies between two characters and never within a terminator, and that
later positions have no earlier bytes.
-/

namespace EditorCore

namespace Text

variable {t : Text} {p : Position}

/-! ## The table of line starts -/

/-- The bytes after the line feeds of a text that itself starts at `byte`. -/
def startsAfter (byte : Nat) : Text → List Nat
  | [] => []
  | c :: t =>
    if c = '\n' then (byte + 1) :: startsAfter (byte + 1) t
    else startsAfter (byte + c.utf8Size) t

/-- **The bytes at which the lines of a text start**: byte 0, and one after every
line feed. -/
def lineStarts (t : Text) : List Nat := 0 :: t.startsAfter 0

/-- **The byte of a position, by a table of line starts**: the line is read from
its start to its line feed, and a line that the table does not have is the end of
the text. -/
def offsetBy (t : Text) (starts : List Nat) (p : Position) : Nat :=
  match starts[p.line.toNat]? with
  | none => t.byteSize
  | some start => start + (t.dropBytes start).firstLine.byteOffset p.column.toNat

/-- A character that is no line feed comes before all lines but the first. -/
theorem before_succ_cons_of_ne {c : Char} (hc : c ≠ '\n') (t : Text) (i : Nat) :
    before (c :: t) (i + 1) = c :: t.before (i + 1) := by
  obtain ⟨g, gs, hg⟩ := List.exists_cons_of_ne_nil (segments_ne_nil t)
  rw [before, before, segments_cons_of_ne hc, hg]
  rfl

/-- **The table has the start of every line**, and no more. -/
theorem getElem?_startsAfter (byte i : Nat) (t : Text) :
    (byte :: t.startsAfter byte)[i]?
      = if i < t.segments.length then some (byte + (t.before i).byteSize) else none := by
  induction t generalizing byte i with
  | nil => cases i <;> rfl
  | cons c t ih =>
    cases i with
    | zero =>
      rw [if_pos (List.length_pos_of_ne_nil (segments_ne_nil _))]
      rfl
    | succ i =>
      rw [List.getElem?_cons_succ, startsAfter]
      by_cases hc : c = '\n'
      · subst hc
        rw [if_pos rfl, ih, segments_cons_newline, List.length_cons]
        simp only [Nat.add_lt_add_iff_right, Nat.add_assoc]
        rfl
      · have htail := ih (byte + c.utf8Size) (i + 1)
        rw [List.getElem?_cons_succ] at htail
        rw [if_neg hc, htail, length_segments_cons_of_ne hc, before_succ_cons_of_ne hc,
          byteSize_cons, Nat.add_assoc]

theorem getElem?_lineStarts (t : Text) (i : Nat) :
    t.lineStarts[i]? = if i < t.segments.length then some (t.before i).byteSize else none := by
  rw [lineStarts, getElem?_startsAfter, Nat.zero_add]

/-! ## Where a line is -/

/-- From where a line starts the text goes on with its segment. -/
theorem dropBytes_byteSize_before {i : Nat} (h : i < t.segments.length) :
    t.dropBytes (t.before i).byteSize = t.segment i ++ t.after i := by
  have hsplit := before_append_segment_append_after h
  rw [List.append_assoc] at hsplit
  conv_lhs => enter [1]; rw [← hsplit]
  rw [← byteAt_length_append (t.before i) (t.segment i ++ t.after i), dropBytes_byteAt (by simp),
    List.drop_left]

/-- The byte of a position on a line of the text. -/
theorem offset_of_lt (h : p.line.toNat < t.segments.length) :
    t.offset p = (t.before p.line.toNat).byteSize
      + (t.line p.line.toNat).byteOffset p.column.toNat := by
  rw [offset_eq_byteAt, byteAt, take_charsBefore h, byteSize_append, byteOffset]

/-- The byte of a position past the last line is the end of the text. -/
theorem offset_of_length_le (h : t.segments.length ≤ p.line.toNat) : t.offset p = t.byteSize := by
  rw [offset_eq_byteAt, charsBefore_of_length_le h, byteAt_length]

/-- **The table finds the byte of a position.** -/
theorem offsetBy_lineStarts (t : Text) (p : Position) : t.offsetBy t.lineStarts p = t.offset p := by
  rw [offsetBy, getElem?_lineStarts]
  rcases Nat.lt_or_ge p.line.toNat t.segments.length with h | h
  · rw [if_pos h, offset_of_lt h]
    dsimp only
    rw [dropBytes_byteSize_before h, firstLine_segment_append_after]
  · rw [if_neg (Nat.not_lt_of_le h), offset_of_length_le h]

/-! ## Terminators -/

/-- **A byte within a line terminator**: between its carriage return and its line
feed. -/
def PartsTerminator (t : Text) (byte : Nat) : Prop :=
  ∃ before after, t = before ++ '\r' :: '\n' :: after ∧ byte = before.byteSize + 1

/-- What comes before a line ends with a line feed, if with anything. -/
theorem getLast?_before {i : Nat} (h : i ≤ t.segments.length) :
    (t.before i).getLast? ≠ some '\r' := by
  cases i with
  | zero => exact nofun
  | succ i =>
    rw [before_succ h, List.getLast?_concat]
    decide

/-- After a position of a line are the rest of the line, its ending and the lines
after it. -/
theorem drop_charsBefore (h : p.line.toNat < t.segments.length) :
    t.drop (t.charsBefore p)
      = (t.line p.line.toNat).drop ((t.line p.line.toNat).index p.column.toNat)
        ++ ((t.segment p.line.toNat).ending ++ t.after p.line.toNat) := by
  have hindex := index_le_length (t.line p.line.toNat) p.column.toNat
  conv_lhs => enter [2]; rw [← before_append_line_append h]
  rw [charsBefore_of_lt h, List.append_assoc, List.drop_length_add_append,
    List.drop_append_of_le_length hindex]

/-- **Before a line feed, a position of a line comes after no carriage return**:
that would belong to the terminator, and the position to the line. -/
theorem getLast?_take_charsBefore {back : Text} (h : p.line.toNat < t.segments.length)
    (hback : t.drop (t.charsBefore p) = '\n' :: back) :
    (t.take (t.charsBefore p)).getLast? ≠ some '\r' := by
  have hline := line_append_ending t p.line.toNat
  have hnot : '\n' ∉ t.segment p.line.toNat := not_mem_segment t _
  rw [drop_charsBefore h] at hback
  rw [take_charsBefore h]
  have hsplit := List.take_append_drop ((t.line p.line.toNat).index p.column.toNat)
    (t.line p.line.toNat)
  generalize (t.line p.line.toNat).take _ = front at hsplit ⊢
  generalize (t.line p.line.toNat).drop _ = rest at hsplit hback
  cases rest with
  | cons c rest =>
    -- the line would hold the line feed
    obtain rfl : c = '\n' := (List.cons.inj hback).1
    refine absurd ?_ hnot
    rw [← hline, ← hsplit]
    simp
  | nil =>
    rw [List.append_nil] at hsplit
    subst hsplit
    unfold ending at hback hline
    split_ifs at hback hline with hreturn
    · exact absurd (List.cons.inj hback).1 (by decide)
    · rw [List.append_nil] at hline
      rw [hline, List.getLast?_append]
      cases hlast : (t.segment p.line.toNat).getLast? with
      | none => exact getLast?_before h.le
      | some c =>
        rw [hlast] at hreturn
        exact hreturn

/-- **No position is found within a terminator.** -/
theorem not_partsTerminator_offset (t : Text) (p : Position) :
    ¬ t.PartsTerminator (t.offset p) := by
  rintro ⟨front, back, hsplit, hbyte⟩
  have hwhole : t = (front ++ ['\r']) ++ '\n' :: back := by rw [hsplit, List.append_cons]
  have hlt : (front ++ ['\r']).length < t.length := by
    have hlength := congrArg List.length hwhole
    rw [List.length_append, List.length_cons] at hlength
    omega
  have hchars : t.charsBefore p = (front ++ ['\r']).length := by
    have hat : t.offset p = t.byteAt (front ++ ['\r']).length := by
      rw [hbyte, hwhole, byteAt_length_append, byteSize_append]
      rfl
    rw [offset_eq_byteAt] at hat
    exact Nat.le_antisymm (le_of_byteAt_le (t.charsBefore_le_length p) hat.le)
      (le_of_byteAt_le hlt.le hat.ge)
  rcases Nat.lt_or_ge p.line.toNat t.segments.length with h | h
  · have hback : t.drop (t.charsBefore p) = '\n' :: back := by
      rw [hchars]
      conv_lhs => rw [hwhole]
      exact List.drop_left
    refine getLast?_take_charsBefore h hback ?_
    rw [hchars]
    conv_lhs => rw [hwhole]
    rw [List.take_left, List.getLast?_concat]
  · rw [charsBefore_of_length_le h] at hchars
    exact absurd hchars hlt.ne'

/-- A position is found between two characters. -/
theorem isBoundary_offset (t : Text) (p : Position) : t.IsBoundary (t.offset p) :=
  ⟨t.take (t.charsBefore p), t.drop (t.charsBefore p), (List.take_append_drop _ t).symm,
    (offset_eq_byteAt t p).symm⟩

end Text

namespace Document

/-- As long as lines are counted in words, that a position is on one of the lines
is said by the count of lines. -/
theorem lt_lineCount_iff {d : Document} (h : d.lines.length < UInt32.size) (line : UInt32) :
    line < d.lineCount ↔ line.toNat < d.lines.length := by
  rw [UInt32.lt_iff_toNat_lt, lineCount, UInt32.toNat_ofNat_of_lt' h]

/-- **Edits and documents address the same byte.** The byte that an edit finds for
a position, by the table of line starts, is where the document has the line and in
it the column, and the end of the text where there is no such line. It lies
between two characters, never within a line terminator, and later positions have
no earlier bytes. -/
theorem offset_eq_lineStart_add (d : Document) (p : Position) :
    d.text.offset p = d.text.offsetBy d.text.lineStarts p
    ∧ d.text.offset p
      = (if p.line.toNat < d.lines.length then
          d.lineStart p.line + (d.lineText p.line).byteOffset p.column.toNat
        else d.text.byteSize)
    ∧ (d.lines.length < UInt32.size →
        (p.line < d.lineCount ↔ p.line.toNat < d.lines.length))
    ∧ d.text.IsBoundary (d.text.offset p)
    ∧ ¬ d.text.PartsTerminator (d.text.offset p)
    ∧ ∀ q, p ≤ q → d.text.offset p ≤ d.text.offset q := by
  refine ⟨(d.text.offsetBy_lineStarts p).symm, ?_, fun h => lt_lineCount_iff h p.line,
    d.text.isBoundary_offset p, d.text.not_partsTerminator_offset p,
    fun q hpq => Text.offset_mono (Position.le_iff_rank_le.1 hpq)⟩
  have hlength : d.lines.length = d.text.segments.length := by
    rw [d.lines_eq, Text.lines, List.length_map]
  rw [hlength, lineStart, lineText_eq_line]
  split_ifs with h
  · exact Text.offset_of_lt h
  · exact Text.offset_of_length_le (Nat.le_of_not_lt h)

/-- A column within a character of two units, on a last line that ends with a
carriage return, and a line past it. -/
theorem offset_eq_lineStart_add_surrogate :
    let d := ofText ['a', '\r', '\n', 'b', '😀', '\r']
    d.text.offset ⟨1, 2⟩ = 4
    ∧ (1 < d.lineCount ↔ (1 : UInt32).toNat < d.lines.length)
    ∧ ¬ d.text.PartsTerminator (d.text.offset ⟨1, 2⟩)
    ∧ d.text.offset ⟨1, 2⟩ ≤ d.text.offset ⟨2, 0⟩ := by
  obtain ⟨-, -, hcount, -, hterminator, hmono⟩ :=
    offset_eq_lineStart_add (ofText ['a', '\r', '\n', 'b', '😀', '\r']) ⟨1, 2⟩
  exact ⟨by decide, hcount (by decide), hterminator, hmono ⟨2, 0⟩ (by decide)⟩

end Document

end EditorCore
