import EditorCore.Proofs.Token.Reader

/-!
# From columns to bytes and back

Every position goes from a column to a byte when it is looked up in a line, and from
a byte to a column when a token is placed there. Between two characters the one is
the inverse of the other (`Text.byteOffset_columnAt`). But there are columns that lie
between no two characters: within a character of two units, and past the end of the
line. To the byte of such a column and back is the last column before it that does
(`Text.isGreatest_columnAt_byteOffset`), and since the byte only grows with the
column, neighbouring slices of a line join to one, wherever the column that parts
them lies (`Text.slice_append_slice`).

Columns are words, and a line is scanned with a running column that is one too: it
grows character by character, and stops growing at the largest word. On a line of
fewer columns it never gets there, and the scan finds the byte of the column
(`Text.scanBytes_eq`).
-/

namespace EditorCore.Text

variable {line : Text} {byte column : Nat}

/-- A column of a line lies between two of its characters. -/
def IsColumn (line : Text) (column : Nat) : Prop :=
  ∃ before after, line = before ++ after ∧ before.width = column

/-! ## Boundaries -/

/-- The column of a first part's last byte is where it ends. -/
theorem columnAt_byteSize_append (s t : Text) : columnAt (s ++ t) s.byteSize = s.width := by
  rw [columnAt, byteSize, fit_measure_append Char.utf8Size_pos, List.take_left]

/-- The byte of a first part's last column is where it ends. -/
theorem byteOffset_width_append (s t : Text) : byteOffset (s ++ t) s.width = s.byteSize := by
  rw [byteOffset, take_index_width_append]

/-- **Between two characters, the column of a byte leads back to it.** -/
theorem byteOffset_columnAt (h : line.IsBoundary byte) :
    line.byteOffset (line.columnAt byte) = byte := by
  obtain ⟨before, after, rfl, rfl⟩ := h
  rw [columnAt_byteSize_append, byteOffset_width_append]

/-- The column of a column's byte is the width of the characters before it. -/
theorem columnAt_byteOffset (line : Text) (column : Nat) :
    line.columnAt (line.byteOffset column) = width (line.take (line.index column)) := by
  have h := columnAt_byteSize_append (line.take (line.index column))
    (line.drop (line.index column))
  rwa [List.take_append_drop] at h

/-- Characters come before a column when they are no wider. -/
theorem le_index_iff {n : Nat} (hn : n ≤ line.length) :
    n ≤ line.index column ↔ width (line.take n) ≤ column :=
  le_fit_iff hn

/-- **A column goes to its byte and back to the last column before it that lies
between two characters.** -/
theorem isGreatest_columnAt_byteOffset (line : Text) (column : Nat) :
    IsGreatest {k | line.IsColumn k ∧ k ≤ min column line.width}
      (line.columnAt (line.byteOffset column)) := by
  rw [columnAt_byteOffset]
  constructor
  · have hcolumn := (le_index_iff (line.index_le_length column)).1 (Nat.le_refl _)
    exact ⟨⟨_, _, (List.take_append_drop _ line).symm, rfl⟩,
      le_min hcolumn (measure_take_le units line _)⟩
  · rintro k ⟨⟨before, after, rfl, rfl⟩, hk⟩
    have hindex : before.length ≤ index (before ++ after) column := by
      rw [le_index_iff (by simp), List.take_left]
      exact hk.trans (min_le_left _ _)
    have hwidth : width ((before ++ after).take before.length)
        ≤ width ((before ++ after).take (index (before ++ after) column)) :=
      measure_take_mono hindex
    rwa [List.take_left] at hwidth

/-- Later columns have no earlier bytes. -/
theorem byteOffset_mono (line : Text) : Monotone line.byteOffset :=
  fun _ _ h => line.byteAt_mono (line.index_mono h)

/-! ## Slices -/

/-- **Slices that meet in a column join**, also where that column lies within a
character: both are cut before it. -/
theorem slice_append_slice {a b c : Nat} (hab : a ≤ b) (hbc : b ≤ c) :
    line.slice a b ++ line.slice b c = line.slice a c := by
  have hleft := line.index_mono hab
  have hright := line.index_mono hbc
  have hlength : line.index a ≤ (line.take (line.index b)).length := by
    rw [List.length_take]
    exact le_min hleft (line.index_le_length a)
  have htake : line.take (line.index c)
      = line.take (line.index b) ++ (line.take (line.index c)).drop (line.index b) := by
    conv_lhs => rw [← List.take_append_drop (line.index b) (line.take (line.index c)),
      List.take_take, Nat.min_eq_left hright]
  simp only [slice]
  conv_rhs => rw [htake, List.drop_append_of_le_length hlength]

/-- A slice has the bytes between the columns, and none when they come in the wrong
order. -/
theorem slice_eq_dropBytes_takeBytes (line : Text) (a b : Nat) :
    line.slice a b
      = (line.takeBytes (max (line.byteOffset b) (line.byteOffset a))).dropBytes
          (line.byteOffset a) := by
  have hmax : max (line.byteOffset b) (line.byteOffset a)
      = line.byteAt (max (line.index b) (line.index a)) := line.byteAt_mono.map_max.symm
  have hlength := max_le (line.index_le_length b) (line.index_le_length a)
  rw [hmax]
  show _ = (line.takeBytes _).dropBytes (line.byteAt (line.index a))
  rw [dropBytes_takeBytes_byteAt (le_max_right _ _) hlength, slice]
  rcases Nat.le_total (line.index a) (line.index b) with h | h
  · rw [max_eq_left h]
  · rw [max_eq_right h, List.drop_eq_nil_of_le ((List.length_take_le _ _).trans h),
      List.drop_eq_nil_of_le (List.length_take_le _ _)]

/-! ## Scans in words -/

/-- The sum of two words, or the largest word where that is smaller. -/
def cappedSum (a b : UInt32) : UInt32 := .ofNat (min (a.toNat + b.toNat) (UInt32.size - 1))

/-- **The byte of a column, by a scan**: how far the running column `passed` has come
is compared with it after every character. -/
def scanBytes (column passed : UInt32) (byte : Nat) : Text → Nat
  | [] => byte
  | c :: t =>
    let next := cappedSum passed (.ofNat (units c))
    if column < next then byte else scanBytes column next (byte + c.utf8Size) t

/-- The width of a text, summed up in words. -/
def wordWidth (t : Text) : UInt32 := t.foldl (fun sum c => sum + .ofNat (units c)) 0

theorem toNat_ofNat_units (c : Char) : (UInt32.ofNat (units c)).toNat = units c :=
  UInt32.toNat_ofNat_of_lt' (Nat.lt_of_le_of_lt (units_le_two c) (by decide))

theorem toNat_cappedSum {a b : UInt32} (h : a.toNat + b.toNat < UInt32.size) :
    (cappedSum a b).toNat = a.toNat + b.toNat := by
  rw [cappedSum, Nat.min_eq_left (Nat.le_sub_one_of_lt h), UInt32.toNat_ofNat_of_lt' h]

theorem byteOffset_cons (c : Char) (t : Text) (column : Nat) :
    byteOffset (c :: t) column
      = if units c ≤ column then c.utf8Size + byteOffset t (column - units c) else 0 := by
  rw [byteOffset, index, fit]
  split_ifs
  · rfl
  · rfl

/-- **The scan finds the byte of a column**, as long as the columns of the line are
words. -/
theorem scanBytes_eq {column passed : UInt32} (hle : passed ≤ column)
    (hw : passed.toNat + line.width < UInt32.size) (byte : Nat) :
    scanBytes column passed byte line
      = byte + line.byteOffset (column.toNat - passed.toNat) := by
  induction line generalizing passed byte with
  | nil => rfl
  | cons c t ih =>
    rw [UInt32.le_iff_toNat_le] at hle
    rw [width_cons] at hw
    have hnext : (cappedSum passed (.ofNat (units c))).toNat = passed.toNat + units c := by
      rw [toNat_cappedSum, toNat_ofNat_units]
      rw [toNat_ofNat_units]
      omega
    rw [scanBytes, byteOffset_cons]
    by_cases hlt : column.toNat < passed.toNat + units c
    · rw [if_pos (UInt32.lt_iff_toNat_lt.2 (hnext ▸ hlt)), if_neg (by omega), Nat.add_zero]
    · rw [if_neg (fun h => hlt (hnext ▸ UInt32.lt_iff_toNat_lt.1 h)), if_pos (by omega),
        ih (UInt32.le_iff_toNat_le.2 (by omega)) (by omega), hnext, Nat.sub_sub, Nat.add_assoc]

/-- The sum in words is the width, as long as that is a word. -/
theorem toNat_wordWidth (h : line.width < UInt32.size) : line.wordWidth.toNat = line.width := by
  suffices ∀ sum : UInt32, sum.toNat + line.width < UInt32.size →
      (line.foldl (fun sum c => sum + .ofNat (units c)) sum).toNat = sum.toNat + line.width by
    rw [wordWidth, this 0 (by rwa [UInt32.toNat_zero, Nat.zero_add]), UInt32.toNat_zero,
      Nat.zero_add]
  clear h
  induction line with
  | nil => exact fun _ _ => rfl
  | cons c t ih =>
    intro sum hsum
    rw [width_cons] at hsum
    have hnext : (sum + .ofNat (units c)).toNat = sum.toNat + units c := by
      rw [UInt32.toNat_add, toNat_ofNat_units]
      exact Nat.mod_eq_of_lt (show _ < UInt32.size by omega)
    rw [List.foldl_cons, ih _ (by omega), hnext, width_cons, Nat.add_assoc]

/-! ## Columns and bytes -/

/-- **Columns and bytes of a line.** Between two characters they lead to each other.
Any other column leads to the byte of the last one before it that lies between two
characters, within the line. Later columns have no earlier bytes, and slices that
meet in a column join. All of it holds of the line as it is scanned in words, the
byte of a column by a running column and the column of a byte by summing up what
comes before it. -/
theorem columns_and_bytes (line : Text) (h : line.width < UInt32.size) :
    (∀ byte, line.IsBoundary byte → line.byteOffset (line.columnAt byte) = byte)
    ∧ (∀ column, IsGreatest {k | line.IsColumn k ∧ k ≤ min column line.width}
        (line.columnAt (line.byteOffset column)))
    ∧ Monotone line.byteOffset
    ∧ (∀ a b c, a ≤ b → b ≤ c → line.slice a b ++ line.slice b c = line.slice a c)
    ∧ (∀ column : UInt32, scanBytes column 0 0 line = line.byteOffset column.toNat)
    ∧ (∀ byte, (line.takeBytes byte).wordWidth.toNat = line.columnAt byte)
    ∧ ∀ a b, line.slice a b
        = (line.takeBytes (max (line.byteOffset b) (line.byteOffset a))).dropBytes
            (line.byteOffset a) := by
  refine ⟨fun byte => byteOffset_columnAt, line.isGreatest_columnAt_byteOffset,
    line.byteOffset_mono, fun a b c => slice_append_slice, fun column => ?_, fun byte => ?_,
    line.slice_eq_dropBytes_takeBytes⟩
  · rw [scanBytes_eq UInt32.zero_le (by rwa [UInt32.toNat_zero, Nat.zero_add]), Nat.zero_add]
    rfl
  · rw [toNat_wordWidth]
    · rfl
    · exact Nat.lt_of_le_of_lt (measure_take_le units line _) h

/-- Characters of one to four bytes. Column 3 lies within the last but one, and so
between the same characters as column 2. -/
theorem columns_and_bytes_surrogate :
    let line := ['a', 'é', '😀', 'b']
    width line < UInt32.size
    ∧ byteOffset line (columnAt line 7) = 7
    ∧ IsGreatest {k | IsColumn line k ∧ k ≤ min 3 (width line)} 2
    ∧ byteOffset line 2 ≤ byteOffset line 3
    ∧ slice line 1 3 ++ slice line 3 5 = slice line 1 5
    ∧ scanBytes 3 0 0 line = 3
    ∧ (wordWidth (takeBytes line 7)).toNat = 4 := by
  obtain ⟨hbyte, hgreatest, hmono, hslice, hscan, hwidth, -⟩ :=
    columns_and_bytes ['a', 'é', '😀', 'b'] (by decide)
  exact ⟨by decide, hbyte 7 ⟨['a', 'é', '😀'], ['b'], rfl, by decide⟩, hgreatest 3,
    hmono (by decide), hslice 1 3 5 (by decide) (by decide), hscan 3, hwidth 7⟩

end EditorCore.Text
