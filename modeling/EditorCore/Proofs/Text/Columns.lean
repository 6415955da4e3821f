import Mathlib
import EditorCore.Text.Columns

/-!
# What fits within a budget

A column and a byte both address a line through `fit`, so what is known of
`fit` holds of both. It is one half of a Galois connection: a number of
leading characters is at most what fits exactly when their measure is at
most the budget (`le_fit_iff`). When every character has a size, the
measure of a prefix determines the prefix, and addressing a boundary by its
measure finds it again (`fit_measure_take`).
-/

namespace EditorCore

/-- A character takes no more columns than bytes. -/
theorem units_le_utf8Size (c : Char) : units c ≤ c.utf8Size := by
  unfold units Char.utf8Size
  simp only [UInt32.le_iff_toNat_le]
  show (if c.val.toNat < 0x10000 then 1 else 2)
    ≤ if c.val.toNat ≤ 0x7f then 1 else if c.val.toNat ≤ 0x7ff then 2
      else if c.val.toNat ≤ 0xffff then 3 else 4
  split_ifs <;> omega

namespace Text

variable {size : Char → Nat} {s t : Text}

/-! ## Measures of prefixes -/

/-- A longer prefix measures no less. -/
theorem measure_take_mono {m n : Nat} (h : m ≤ n) :
    measure size (t.take m) ≤ measure size (t.take n) := by
  obtain ⟨k, rfl⟩ := Nat.exists_eq_add_of_le h
  rw [List.take_add, measure_append]
  exact Nat.le_add_right _ _

/-- A prefix measures no more than the text. -/
theorem measure_take_le (size : Char → Nat) (t : Text) (n : Nat) :
    measure size (t.take n) ≤ measure size t := by
  conv_rhs => rw [← List.take_append_drop n t, measure_append]
  exact Nat.le_add_right _ _

/-- Where every character has a size, only the empty text measures
nothing. -/
theorem measure_pos (hpos : ∀ c, 0 < size c) (ht : t ≠ []) : 0 < measure size t := by
  obtain ⟨c, t, rfl⟩ := List.exists_cons_of_ne_nil ht
  exact Nat.lt_of_lt_of_le (hpos c) (Nat.le_add_right _ _)

/-- Where every character has a size, a longer prefix measures more. -/
theorem measure_take_lt (hpos : ∀ c, 0 < size c) {m n : Nat} (h : m < n)
    (hm : m < t.length) : measure size (t.take m) < measure size (t.take n) := by
  obtain ⟨k, rfl⟩ := Nat.exists_eq_add_of_lt h
  rw [Nat.add_assoc, List.take_add, measure_append]
  refine Nat.lt_add_of_pos_right (measure_pos hpos ?_)
  rw [Ne, List.take_eq_nil_iff, List.drop_eq_nil_iff]
  omega

/-- A measure bounded character by character is bounded. -/
theorem measure_le_measure {size' : Char → Nat} (h : ∀ c, size c ≤ size' c) (t : Text) :
    measure size t ≤ measure size' t := by
  induction t with
  | nil => exact Nat.le_refl 0
  | cons c t ih => exact Nat.add_le_add (h c) ih

/-! ## What fits -/

/-- **What fits is what measures no more than the budget.** -/
theorem le_fit_iff {n budget : Nat} (hn : n ≤ t.length) :
    n ≤ fit size t budget ↔ measure size (t.take n) ≤ budget := by
  induction t generalizing n budget with
  | nil => simp_all [fit]
  | cons c t ih =>
    cases n with
    | zero => simp
    | succ n =>
      have hn' : n ≤ t.length := by simpa using hn
      rw [List.take_succ_cons, measure_cons, fit]
      split_ifs with hc
      · rw [Nat.add_le_add_iff_right, ih hn']
        omega
      · have := Nat.le_add_right (size c) (measure size (t.take n))
        omega

/-- More fits within a larger budget. -/
theorem fit_mono {a b : Nat} (h : a ≤ b) : fit size t a ≤ fit size t b :=
  (le_fit_iff (fit_le_length size t a)).2 ((measure_take_fit_le size t a).trans h)

/-- **The measure of a prefix finds its end again.** -/
theorem fit_measure_take (hpos : ∀ c, 0 < size c) {n : Nat} (hn : n ≤ t.length) :
    fit size t (measure size (t.take n)) = n := by
  refine Nat.le_antisymm ?_ ((le_fit_iff hn).2 (Nat.le_refl _))
  by_contra hlt
  have hle := measure_take_fit_le size t (measure size (t.take n))
  have hbound := fit_le_length size t (measure size (t.take n))
  have := measure_take_lt (t := t) hpos (Nat.lt_of_not_le hlt) (by omega)
  omega

/-- The measure of a first part finds where it ends. -/
theorem fit_measure_append (hpos : ∀ c, 0 < size c) (s t : Text) :
    fit size (s ++ t) (measure size s) = s.length := by
  have h := fit_measure_take (t := s ++ t) hpos (n := s.length) (by simp)
  rwa [List.take_left] at h

/-- What fits after a first part. -/
theorem fit_append_add (size : Char → Nat) (s t : Text) (budget : Nat) :
    fit size (s ++ t) (measure size s + budget) = s.length + fit size t budget := by
  induction s with
  | nil =>
    rw [List.nil_append, List.length_nil, Nat.zero_add]
    exact congrArg (fit size t) (Nat.zero_add budget)
  | cons c s ih =>
    rw [List.cons_append, measure_cons, fit, if_pos (by omega),
      show size c + measure size s + budget - size c = measure size s + budget by omega, ih,
      List.length_cons]
    omega

/-! ## Columns and bytes -/

@[simp] theorem width_nil : width [] = 0 := rfl

@[simp] theorem width_cons (c : Char) (t : Text) : width (c :: t) = units c + width t := rfl

@[simp] theorem width_append (s t : Text) : width (s ++ t) = width s + width t :=
  measure_append units s t

@[simp] theorem byteSize_nil : byteSize [] = 0 := rfl

@[simp] theorem byteSize_cons (c : Char) (t : Text) :
    byteSize (c :: t) = c.utf8Size + byteSize t := rfl

@[simp] theorem byteSize_append (s t : Text) : byteSize (s ++ t) = byteSize s + byteSize t :=
  measure_append Char.utf8Size s t

/-- A text has no more columns than bytes. -/
theorem width_le_byteSize (t : Text) : width t ≤ byteSize t :=
  measure_le_measure units_le_utf8Size t

/-- A text that is not empty has a column. -/
theorem width_pos (ht : t ≠ []) : 0 < width t := measure_pos units_pos ht

/-- A text of characters that take one column each is as wide as it is long. -/
theorem width_eq_length (h : ∀ c ∈ t, units c = 1) : width t = t.length := by
  induction t with
  | nil => rfl
  | cons c t ih =>
    obtain ⟨hc, ht⟩ := List.forall_mem_cons.1 h
    rw [width_cons, hc, ih ht, List.length_cons, Nat.add_comm]

/-- The width of a first part is the column where it ends. -/
theorem index_width_append (s t : Text) : index (s ++ t) (width s) = s.length :=
  fit_measure_append units_pos s t

/-- Columns after a first part are counted from its end. -/
theorem index_append_add (s t : Text) (column : Nat) :
    index (s ++ t) (width s + column) = s.length + index t column :=
  fit_append_add units s t column

/-- A column lies before no more characters than the line has. -/
theorem index_le_length (t : Text) (column : Nat) : index t column ≤ t.length :=
  fit_le_length units t column

/-- Later columns lie after more characters. -/
theorem index_mono (t : Text) : Monotone t.index := fun _ _ h => fit_mono h

/-- **Slicing finds a part between the columns where it starts and
ends.** -/
theorem slice_append_append (r s t : Text) :
    slice (r ++ s ++ t) (width r) (width r + width s) = s := by
  unfold slice
  rw [← width_append, index_width_append, List.take_left, List.append_assoc,
    ← List.append_assoc r s, List.append_assoc, index_width_append, List.drop_left]

/-- **A slice of two characters is found where it starts**, when the first
of them takes one column. -/
theorem exists_of_slice_eq_pair {line : Text} {start stop : Nat} {x y : Char}
    (h : slice line start stop = [x, y]) (hx : units x = 1) :
    ∃ pre post, line = pre ++ x :: y :: post ∧ width pre = start
      ∧ start + 1 + units y ≤ stop := by
  have hlen := congrArg List.length h
  rw [slice, List.length_drop, List.length_take, List.length_cons, List.length_singleton] at hlen
  have hstop := index_le_length line stop
  obtain ⟨pre, post, hline, hpre⟩ :
      ∃ pre post, line = pre ++ x :: y :: post ∧ pre.length = index line start := by
    refine ⟨line.take (index line start), line.drop (index line stop), ?_, ?_⟩
    · conv_lhs => rw [← List.take_append_drop (index line stop) line,
        ← List.take_append_drop (index line start) (line.take (index line stop)),
        List.take_take, Nat.min_eq_left (by omega), ← slice, h]
      simp
    · rw [List.length_take]
      omega
  have htake : ∀ n, line.take (pre.length + n) = pre ++ (x :: y :: post).take n := by
    intro n
    rw [hline, List.take_length_add_append]
  -- one character more than `pre` does not fit before `start`
  have hnext : ¬ width (line.take (pre.length + 1)) ≤ start := by
    rw [width, ← le_fit_iff (by omega), hpre]
    exact Nat.not_succ_le_self _
  have hfit : width (line.take (pre.length + 0)) ≤ start :=
    hpre ▸ measure_take_fit_le units line start
  have hfit' : width (line.take (pre.length + 2)) ≤ stop := by
    rw [show pre.length + 2 = index line stop by omega]
    exact measure_take_fit_le units line stop
  simp only [htake, List.take_zero, List.take_succ_cons, width_append, width_cons, width_nil,
    hx] at hnext hfit hfit'
  exact ⟨pre, post, hline, by omega, by omega⟩

/-- The part of a line before the column where a first part ends. -/
theorem take_index_width_append (s t : Text) : (s ++ t).take ((s ++ t).index s.width) = s := by
  rw [index_width_append, List.take_left]

/-- The character after the column where a first part ends starts the rest. -/
theorem charAfter_width_append (s t : Text) : charAfter (s ++ t) s.width = t.head? := by
  rw [charAfter, index_width_append, List.drop_left]

/-- **A column with a character of one unit after it**, or none, lies between
two characters. -/
theorem width_take_index {g : Text} {column : Nat} (hle : column ≤ g.width)
    (h : ∀ c ∈ g.charAfter column, units c = 1) :
    width (g.take (g.index column)) = column := by
  have hfit := measure_take_fit_le units g column
  change width (g.take (g.index column)) ≤ column at hfit
  refine Nat.le_antisymm hfit ?_
  rcases Nat.lt_or_ge (g.index column) g.length with hlt | hge
  · -- one character more would not fit before the column, and it is one column wide
    have hnext : ¬ width (g.take (g.index column + 1)) ≤ column := by
      rw [width, ← le_fit_iff hlt]
      exact Nat.not_succ_le_self _
    have hchar : g.charAfter column = some g[g.index column] := by
      rw [charAfter, List.drop_eq_getElem_cons hlt, List.head?_cons]
    rw [List.take_succ_eq_append_getElem hlt, width_append, width_cons, width_nil,
      h _ hchar] at hnext
    omega
  · rwa [List.take_of_length_le hge]

/-- A character after a column comes before the end of the line. -/
theorem lt_width_of_charAfter {line : Text} {column : Nat} {c : Char}
    (h : line.charAfter column = some c) : column < line.width := by
  have hlt : line.index column < line.length := by
    by_contra hle
    rw [charAfter, List.drop_eq_nil_of_le (Nat.le_of_not_lt hle)] at h
    exact absurd h nofun
  have hnext : ¬ width (line.take (line.index column + 1)) ≤ column := by
    rw [width, ← le_fit_iff hlt]
    exact Nat.not_succ_le_self _
  exact (Nat.lt_of_not_le hnext).trans_le (measure_take_le units line _)

/-! ## Characters and bytes -/

/-- **The byte at which a character starts**; the size of the text from the
last character on. -/
def byteAt (t : Text) (n : Nat) : Nat := byteSize (t.take n)

/-- Later characters start at later bytes. -/
theorem byteAt_mono (t : Text) : Monotone t.byteAt := fun _ _ h => measure_take_mono h

/-- A character starts before another exactly when it comes before it. -/
theorem byteAt_lt_iff {m n : Nat} (hm : m < t.length) : t.byteAt m < t.byteAt n ↔ m < n := by
  refine ⟨fun h => ?_, fun h => measure_take_lt Char.utf8Size_pos h hm⟩
  by_contra hle
  exact absurd (t.byteAt_mono (Nat.le_of_not_lt hle)) (Nat.not_le_of_lt h)

/-- What follows a first part starts at its size. -/
theorem byteAt_length_append (s t : Text) : byteAt (s ++ t) s.length = byteSize s := by
  rw [byteAt, List.take_left]

/-- Bytes after a first part are counted from its end. -/
theorem byteAt_append_add (s t : Text) (n : Nat) :
    byteAt (s ++ t) (s.length + n) = byteSize s + byteAt t n := by
  rw [byteAt, List.take_length_add_append, byteSize_append, byteAt]

/-- Bytes within a first part are counted there. -/
theorem byteAt_append_of_le {n : Nat} (h : n ≤ s.length) : byteAt (s ++ t) n = byteAt s n := by
  rw [byteAt, List.take_append_of_le_length h, byteAt]

theorem byteAt_length (t : Text) : t.byteAt t.length = byteSize t := by
  rw [byteAt, List.take_length]

/-- The bytes before a character. -/
theorem takeBytes_byteAt {n : Nat} (hn : n ≤ t.length) : t.takeBytes (t.byteAt n) = t.take n := by
  rw [takeBytes, byteAt, byteSize, fit_measure_take Char.utf8Size_pos hn]

/-- The bytes from a character on. -/
theorem dropBytes_byteAt {n : Nat} (hn : n ≤ t.length) : t.dropBytes (t.byteAt n) = t.drop n := by
  rw [dropBytes, byteAt, byteSize, fit_measure_take Char.utf8Size_pos hn]

/-- The bytes between two characters are the characters between them. -/
theorem dropBytes_takeBytes_byteAt {m n : Nat} (hmn : m ≤ n) (hn : n ≤ t.length) :
    (t.takeBytes (t.byteAt n)).dropBytes (t.byteAt m) = (t.take n).drop m := by
  have hm : t.byteAt m = byteAt (t.take n) m := by
    rw [byteAt, byteAt, List.take_take, Nat.min_eq_left hmn]
  rw [takeBytes_byteAt hn, hm, dropBytes_byteAt]
  rw [List.length_take]
  omega

end Text

end EditorCore
