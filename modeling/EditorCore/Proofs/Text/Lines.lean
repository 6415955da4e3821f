import EditorCore.Proofs.Text.Columns
import EditorCore.Text.Lines

/-!
# Cutting a text into lines and joining them

The segments of a text are what lies between its line feeds: none holds a
line feed, joined by line feeds they are the text, and no other list of
that kind is (`segments_intercalate`). A line is its segment without the
carriage return of the terminator, so the segment is the line followed by
its **ending**, which is that one character or nothing
(`dropReturn_append_ending`).

A line is located by the text before it, `before`: its length, its byte
size and its width are the offsets at which the line starts, whichever unit
an offset is counted in.
-/

namespace EditorCore.Text

/-! ## Segments -/

@[simp] theorem segments_nil : segments [] = [[]] := rfl

/-- A line feed ends the first segment. -/
theorem segments_cons_newline (t : Text) : segments ('\n' :: t) = [] :: segments t := rfl

/-- Any other character belongs to the first segment. -/
theorem segments_cons_of_ne {c : Char} (hc : c ≠ '\n') (t : Text) :
    segments (c :: t) = (segments t).modifyHead (c :: ·) := by
  rw [segments, pieces, if_neg hc]
  rfl

/-- A text without a line feed extends the first segment of what follows. -/
theorem segments_append_of_not_mem {s : Text} (hs : '\n' ∉ s) (t : Text) :
    segments (s ++ t) = (segments t).modifyHead (s ++ ·) := by
  induction s with
  | nil => cases h : segments t <;> simp [h]
  | cons c s ih =>
    rw [List.mem_cons, not_or] at hs
    obtain ⟨hc, hs⟩ := hs
    rw [List.cons_append, segments_cons_of_ne (Ne.symm hc), ih hs]
    cases segments t <;> simp

/-- A text without a line feed is one segment. -/
theorem segments_of_not_mem {s : Text} (hs : '\n' ∉ s) : segments s = [s] := by
  have h := segments_append_of_not_mem hs []
  simpa using h

/-- **A line feed parts the segments before it from those after it.** -/
theorem segments_append_newline (s t : Text) :
    segments (s ++ '\n' :: t) = segments s ++ segments t := by
  induction s with
  | nil => rfl
  | cons c s ih =>
    by_cases hc : c = '\n'
    · subst hc
      rw [List.cons_append, segments_cons_newline, segments_cons_newline, ih, List.cons_append]
    · obtain ⟨g, gs, hg⟩ := List.exists_cons_of_ne_nil (segments_ne_nil s)
      rw [List.cons_append, segments_cons_of_ne hc, segments_cons_of_ne hc, ih, hg]
      rfl

/-- No segment holds a line feed. -/
theorem not_mem_of_mem_segments {t g : Text} (hg : g ∈ t.segments) : '\n' ∉ g := by
  induction t generalizing g with
  | nil => simp_all
  | cons c t ih =>
    by_cases hc : c = '\n'
    · subst hc
      rw [segments_cons_newline, List.mem_cons] at hg
      rcases hg with rfl | hg
      · exact List.not_mem_nil
      · exact ih hg
    · obtain ⟨f, fs, hf⟩ := List.exists_cons_of_ne_nil (segments_ne_nil t)
      rw [segments_cons_of_ne hc, hf, List.modifyHead_cons, List.mem_cons] at hg
      rcases hg with rfl | hg
      · exact List.not_mem_cons_of_ne_of_not_mem (Ne.symm hc) (ih (hf ▸ List.mem_cons_self))
      · exact ih (hf ▸ List.mem_cons_of_mem f hg)

/-- Joining the segments gives the text back. -/
theorem intercalate_segments (t : Text) : ['\n'].intercalate t.segments = t := by
  induction t with
  | nil => rfl
  | cons c t ih =>
    obtain ⟨g, gs, hg⟩ := List.exists_cons_of_ne_nil (segments_ne_nil t)
    by_cases hc : c = '\n'
    · subst hc
      rw [segments_cons_newline, hg, List.intercalate_cons_cons, ← hg, ih]
      rfl
    · rw [segments_cons_of_ne hc, hg, List.modifyHead_cons]
      rw [hg] at ih
      cases gs with
      | nil => rw [← ih]; simp
      | cons h gs => rw [List.intercalate_cons_cons] at ih ⊢; rw [← ih]; simp

/-- **The segments are the only cut**: texts without line feeds, joined by
line feeds, are the segments of what they join to. -/
theorem segments_intercalate {gs : List Text} (hne : gs ≠ []) (hg : ∀ g ∈ gs, '\n' ∉ g) :
    segments (['\n'].intercalate gs) = gs := by
  induction gs with
  | nil => exact absurd rfl hne
  | cons g gs ih =>
    have hg₀ := hg g List.mem_cons_self
    cases gs with
    | nil => simpa using segments_of_not_mem hg₀
    | cons h gs =>
      rw [List.intercalate_cons_cons, List.append_assoc, List.singleton_append,
        segments_append_newline, segments_of_not_mem hg₀,
        ih (List.cons_ne_nil h gs) (fun f hf => hg f (List.mem_cons_of_mem g hf))]
      rfl

/-- The number of segments does not change at a character that is no line
feed. -/
theorem length_segments_cons_of_ne {c : Char} (hc : c ≠ '\n') (t : Text) :
    (segments (c :: t)).length = (segments t).length := by
  rw [segments_cons_of_ne hc, List.length_modifyHead]

/-- There is a line for every line feed, and one more. -/
theorem length_segments (t : Text) : t.segments.length = t.count '\n' + 1 := by
  induction t with
  | nil => rfl
  | cons c t ih =>
    by_cases hc : c = '\n'
    · subst hc
      rw [segments_cons_newline, List.length_cons, ih, List.count_cons_self]
    · rw [length_segments_cons_of_ne hc, ih, List.count_cons_of_ne hc]

/-! ## Endings -/

/-- **The carriage return that ends a segment**, if one does. -/
def ending (g : Text) : Text := if g.getLast? = some '\r' then ['\r'] else []

/-- **A segment is its line and its ending.** -/
theorem dropReturn_append_ending (g : Text) : g.dropReturn ++ g.ending = g := by
  unfold dropReturn ending
  split_ifs with h
  · obtain ⟨s, rfl⟩ := List.getLast?_eq_some_iff.1 h
    rw [List.dropLast_concat]
  · exact List.append_nil g

/-- The ending of a text is that of its last part, where there is one, or where
no return comes before it. -/
theorem dropReturn_append {s t : Text} (h : t ≠ [] ∨ s.getLast? ≠ some '\r') :
    dropReturn (s ++ t) = s ++ t.dropReturn := by
  rcases List.eq_nil_or_concat' t with rfl | ⟨t, c, rfl⟩
  · rw [List.append_nil, dropReturn, if_neg (h.resolve_left (absurd rfl))]
    exact (List.append_nil s).symm
  · rw [dropReturn, dropReturn, ← List.append_assoc, List.getLast?_concat, List.getLast?_concat,
      List.dropLast_concat, List.dropLast_concat]
    split_ifs
    · rfl
    · exact List.append_assoc s t [c]

/-! ## The text around a line -/

/-- **The text before a line**: the segments before it, each with the line
feed that ends it. -/
def before (t : Text) (line : Nat) : Text := (t.segments.take line).flatMap (· ++ ['\n'])

/-- The segment of a line; empty outside the text. -/
def segment (t : Text) (line : Nat) : Text := t.segments.getD line []

/-- The text after a line: the segments after it, each with the line feed
before it. -/
def after (t : Text) (line : Nat) : Text := (t.segments.drop (line + 1)).flatMap ('\n' :: ·)

/-- Around one of the joined texts, the ones before it bring their line
feeds along, and so do the ones after it. -/
theorem intercalate_append_cons (gs : List Text) (g : Text) (hs : List Text) :
    ['\n'].intercalate (gs ++ g :: hs)
      = gs.flatMap (· ++ ['\n']) ++ g ++ hs.flatMap ('\n' :: ·) := by
  induction gs with
  | nil =>
    induction hs generalizing g with
    | nil => simp
    | cons h hs ih =>
      rw [List.nil_append, List.intercalate_cons_cons, ← List.nil_append (h :: hs), ih h]
      simp
  | cons f gs ih =>
    have hne : gs ++ g :: hs ≠ [] := by simp
    obtain ⟨h', hs', hh⟩ := List.exists_cons_of_ne_nil hne
    rw [List.cons_append, hh, List.intercalate_cons_cons, ← hh, ih]
    simp

/-- **A text is its lines before one, that line's segment, and the lines
after it.** -/
theorem before_append_segment_append_after {t : Text} {line : Nat}
    (h : line < t.segments.length) : t.before line ++ t.segment line ++ t.after line = t := by
  have hsplit : t.segments
      = t.segments.take line ++ t.segment line :: t.segments.drop (line + 1) := by
    rw [segment, List.getD_eq_getElem _ _ h, List.getElem_cons_drop, List.take_append_drop]
  conv_rhs => rw [← intercalate_segments t, hsplit]
  exact (intercalate_append_cons _ _ _).symm

/-- A text ends after its last line, or a line feed follows it. -/
theorem after_eq_nil_or_cons (t : Text) (line : Nat) :
    t.after line = [] ∨ ∃ u, t.after line = '\n' :: u := by
  unfold after
  cases t.segments.drop (line + 1) with
  | nil => exact Or.inl rfl
  | cons g gs => exact Or.inr ⟨_, rfl⟩

/-- The next line starts after the line feed of this one. -/
theorem before_succ {t : Text} {line : Nat} (h : line < t.segments.length) :
    t.before (line + 1) = t.before line ++ t.segment line ++ ['\n'] := by
  rw [before, List.take_succ_eq_append_getElem h, List.flatMap_append, List.flatMap_singleton,
    segment, List.getD_eq_getElem _ _ h, List.append_assoc]
  rfl

/-- Later lines come after more of the text. -/
theorem length_before_mono (t : Text) : Monotone fun line => (t.before line).length := by
  refine monotone_nat_of_le_succ fun line => ?_
  rcases Nat.lt_or_ge line t.segments.length with h | h
  · rw [before_succ h, List.append_assoc, List.length_append]
    exact Nat.le_add_right _ _
  · rw [before, before, List.take_of_length_le h, List.take_of_length_le (by omega)]

/-- A text is determined by its segments. -/
theorem ext_segment {t u : Text} (hlength : u.segments.length = t.segments.length)
    (h : ∀ i, u.segment i = t.segment i) : u = t := by
  have hsegments : u.segments = t.segments := by
    refine List.ext_getElem hlength fun i hu ht => ?_
    have hi := h i
    rwa [segment, segment, List.getD_eq_getElem _ _ hu, List.getD_eq_getElem _ _ ht] at hi
  rw [← intercalate_segments u, ← intercalate_segments t, hsegments]

/-- Outside the text a segment is empty. -/
theorem segment_of_length_le {t : Text} {line : Nat} (h : t.segments.length ≤ line) :
    t.segment line = [] :=
  List.getD_eq_default _ _ h

theorem not_mem_segment (t : Text) (i : Nat) : '\n' ∉ t.segment i := by
  rcases Nat.lt_or_ge i t.segments.length with h | h
  · rw [segment, List.getD_eq_getElem _ _ h]
    exact not_mem_of_mem_segments (List.getElem_mem h)
  · rw [segment_of_length_le h]
    exact List.not_mem_nil

/-- What a segment holds the text does. -/
theorem mem_of_mem_segment {c : Char} {t : Text} {line : Nat} (h : c ∈ t.segment line) :
    c ∈ t := by
  rcases Nat.lt_or_ge line t.segments.length with hlt | hge
  · rw [← before_append_segment_append_after hlt]
    exact List.mem_append_left _ (List.mem_append_right _ h)
  · rw [segment_of_length_le hge] at h
    exact absurd h List.not_mem_nil

/-- The characters after the text before a line are its segment. -/
theorem drop_take_segment (t : Text) (line : Nat) :
    (t.take ((t.before line).length + (t.segment line).length)).drop (t.before line).length
      = t.segment line := by
  rcases Nat.lt_or_ge line t.segments.length with h | h
  · conv_lhs =>
      enter [2, 2]
      rw [← before_append_segment_append_after h]
    rw [← List.length_append, List.take_left, List.drop_left]
  · rw [segment_of_length_le h, List.drop_eq_nil_iff, List.length_take]
    exact Nat.min_le_left _ _

/-- **A line**: its segment without the return. -/
def line (t : Text) (i : Nat) : Text := (t.segment i).dropReturn

/-- The line of an index, among all lines. -/
theorem getD_lines (t : Text) (i : Nat) : t.lines.getD i [] = t.line i := by
  rw [lines, line, segment]
  exact List.getD_map _ [] dropReturn

/-- A line and its ending are its segment. -/
theorem line_append_ending (t : Text) (i : Nat) :
    t.line i ++ (t.segment i).ending = t.segment i :=
  dropReturn_append_ending (t.segment i)

/-- A line is no longer than its segment. -/
theorem length_line_le (t : Text) (i : Nat) : (t.line i).length ≤ (t.segment i).length := by
  conv_rhs => rw [← line_append_ending t i, List.length_append]
  exact Nat.le_add_right _ _

/-- A text is what comes before a line, the line, its ending and what comes
after it. -/
theorem before_append_line_append {t : Text} {i : Nat} (h : i < t.segments.length) :
    t.before i ++ t.line i ++ ((t.segment i).ending ++ t.after i) = t := by
  conv_rhs => rw [← before_append_segment_append_after h, ← line_append_ending t i]
  simp only [List.append_assoc]

/-- There are no more lines than bytes, and one. -/
theorem length_segments_le (t : Text) : t.segments.length ≤ t.byteSize + 1 := by
  induction t with
  | nil => exact Nat.le_refl 1
  | cons c t ih =>
    have hc := c.utf8Size_pos
    rw [byteSize_cons]
    by_cases hn : c = '\n'
    · subst hn
      rw [segments_cons_newline, List.length_cons]
      omega
    · rw [segments_cons_of_ne hn, List.length_modifyHead]
      omega

end EditorCore.Text
