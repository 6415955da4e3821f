import EditorCore.Proofs.Edit.Checked
import EditorCore.Proofs.Text.Columns

/-!
# Blanks and how wide they are

The width of the blanks of a line is counted in columns, a tab running to the
next tab stop. Counted in numbers of any size that is `Text.blankWidth`. The count in
words gives the same, or nothing: a tab first adds all of the tab size to the column it
starts in, and that may be too much even where the tab stop is not
(`Checked.computes_indentationWidth`).

Blanks of one width come in many forms, with spaces before tabs and tabs cut short
by them, and one of them is **canonical**: as many tabs as fit and then spaces, or
spaces alone (`Text.IsCanonical`). What indentation writes for a width is
canonical and has that width, and nothing else is (`Text.IsCanonical.eq`). With tabs it
is also the shortest form of all (`Text.IsCanonical.length_le`).
-/

namespace EditorCore

/-! ## The characters -/

/-- New blanks are spaces and tabs. -/
theorem isIndent_of_mem_canonicalBlanks {tabSize : UInt32} {withTabs : Bool} {width : UInt32}
    {c : Char} (hc : c ∈ canonicalBlanks tabSize withTabs width) : c = ' ' ∨ c = '\t' := by
  unfold canonicalBlanks at hc
  split_ifs at hc
  · rcases List.mem_append.1 hc with hc | hc
    · exact .inr (List.eq_of_mem_replicate hc)
    · exact .inl (List.eq_of_mem_replicate hc)
  · exact .inl (List.eq_of_mem_replicate hc)

/-- Blanks are as wide as they are many. -/
theorem width_eq_length_of_indent {blanks : Text} (h : ∀ c ∈ blanks, c = ' ' ∨ c = '\t') :
    blanks.width = blanks.length := by
  refine Text.width_eq_length fun c hc => ?_
  rcases h c hc with rfl | rfl <;> rfl

/-- A line starts with its blanks. -/
theorem indentation_append_dropWhile (line : Text) :
    line.indentation ++ line.dropWhile isIndent = line := List.takeWhile_append_dropWhile

theorem mem_indentation {line : Text} {c : Char} (h : c ∈ line.indentation) :
    c = ' ' ∨ c = '\t' := by
  have hindent := List.mem_takeWhile_imp h
  simpa [isIndent] using hindent

theorem width_indentation (line : Text) : line.indentation.width = line.indentation.length :=
  width_eq_length_of_indent fun _ => mem_indentation

/-- A line is at least as wide as its blanks are many. -/
theorem length_indentation_le (line : Text) : line.indentation.length ≤ line.width := by
  rw [← width_indentation]
  conv_rhs => rw [← indentation_append_dropWhile line, Text.width_append]
  exact Nat.le_add_right _ _

namespace Text

/-- The column after one more blank. A tab runs to the next multiple of the tab
size. -/
def afterBlank (tabSize column : Nat) (c : Char) : Nat :=
  if c = '\t' then (column / tabSize + 1) * tabSize else column + 1

/-- **The width of blanks** in columns. -/
def blankWidth (tabSize : Nat) (blanks : Text) : Nat := blanks.foldl (afterBlank tabSize) 0

/-- **Blanks in canonical form**: tabs, followed by fewer spaces than would make
one more, or spaces alone. -/
def IsCanonical (tabSize : Nat) (withTabs : Bool) (blanks : Text) : Prop :=
  ∃ tabs spaces, blanks = List.replicate tabs '\t' ++ List.replicate spaces ' '
    ∧ if withTabs then spaces < tabSize else tabs = 0

/-- **Every tab has room**: the column it starts in and the tab size add up to a word. -/
def TabsFit (tabSize column : Nat) (blanks : Text) : Prop :=
  ∀ n < blanks.length, blanks[n]? = some '\t' →
    (blanks.take n).foldl (afterBlank tabSize) column + tabSize < UInt32.size

instance (tabSize column : Nat) (blanks : Text) : Decidable (blanks.TabsFit tabSize column) :=
  inferInstanceAs (Decidable (∀ n < _, _ → _))

variable {tabSize column : Nat} {withTabs : Bool} {s t : Text}

/-! ## Counting columns -/

/-- A blank takes a column at least. -/
theorem lt_afterBlank (h : 0 < tabSize) (column : Nat) (c : Char) :
    column < afterBlank tabSize column c := by
  unfold afterBlank
  split_ifs
  · rw [Nat.mul_comm]
    exact Nat.lt_mul_div_succ column h
  · exact Nat.lt_succ_self column

/-- Blanks take as many columns at least as there are of them. -/
theorem add_length_le_foldl (h : 0 < tabSize) (column : Nat) (t : Text) :
    column + t.length ≤ t.foldl (afterBlank tabSize) column := by
  induction t generalizing column with
  | nil => exact Nat.le_refl column
  | cons c t ih =>
    have hc := lt_afterBlank h column c
    have ht := ih (afterBlank tabSize column c)
    rw [List.foldl_cons, List.length_cons]
    omega

theorem length_le_blankWidth (h : 0 < tabSize) (t : Text) : t.length ≤ t.blankWidth tabSize := by
  have hle := add_length_le_foldl h 0 t
  rwa [Nat.zero_add] at hle

/-- Tabs after a tab stop. -/
theorem foldl_replicate_tab (h : 0 < tabSize) (stops tabs : Nat) :
    (List.replicate tabs '\t').foldl (afterBlank tabSize) (stops * tabSize)
      = (stops + tabs) * tabSize := by
  induction tabs generalizing stops with
  | zero => rfl
  | succ tabs ih =>
    have hstop : afterBlank tabSize (stops * tabSize) '\t' = (stops + 1) * tabSize := by
      rw [afterBlank, if_pos rfl, Nat.mul_div_cancel _ h]
    rw [List.replicate_succ, List.foldl_cons, hstop, ih, Nat.add_right_comm, Nat.add_assoc]

/-- Spaces after a column. -/
theorem foldl_replicate_space (column spaces : Nat) :
    (List.replicate spaces ' ').foldl (afterBlank tabSize) column = column + spaces := by
  induction spaces generalizing column with
  | zero => rfl
  | succ spaces ih =>
    have hspace : afterBlank tabSize column ' ' = column + 1 := if_neg (by decide)
    rw [List.replicate_succ, List.foldl_cons, hspace, ih, Nat.add_right_comm, Nat.add_assoc]

/-- **The width of tabs and then spaces.** -/
theorem blankWidth_replicate (h : 0 < tabSize) (tabs spaces : Nat) :
    blankWidth tabSize (List.replicate tabs '\t' ++ List.replicate spaces ' ')
      = tabs * tabSize + spaces := by
  have htabs := foldl_replicate_tab h 0 tabs
  rw [Nat.zero_mul, Nat.zero_add] at htabs
  rw [blankWidth, List.foldl_append, htabs, foldl_replicate_space]

/-- **There is one canonical form of a width.** -/
theorem IsCanonical.eq (hs : IsCanonical tabSize withTabs s) (ht : IsCanonical tabSize withTabs t)
    (h : 0 < tabSize) (heq : s.blankWidth tabSize = t.blankWidth tabSize) : s = t := by
  obtain ⟨tabs, spaces, rfl, hs⟩ := hs
  obtain ⟨tabs', spaces', rfl, ht⟩ := ht
  rw [blankWidth_replicate h, blankWidth_replicate h] at heq
  cases withTabs with
  | false =>
    simp only [Bool.false_eq_true, if_false] at hs ht
    subst hs ht
    obtain rfl : spaces = spaces' := by omega
    rfl
  | true =>
    simp only [if_true] at hs ht
    have htabs : tabs = tabs' := by
      have hdiv := congrArg (· / tabSize) heq
      simpa [Nat.mul_comm, Nat.mul_add_div h, Nat.div_eq_of_lt hs, Nat.div_eq_of_lt ht] using hdiv
    subst htabs
    obtain rfl : spaces = spaces' := Nat.add_left_cancel heq
    rfl

/-! ## Room for tabs -/

variable {blanks : Text}

/-- A tab stop is no further than the whole tab size. -/
theorem afterBlank_le (tabSize column : Nat) (c : Char) :
    afterBlank tabSize column c ≤ column + (if c = '\t' then tabSize else 1) := by
  unfold afterBlank
  split_ifs
  · rw [Nat.succ_mul]
    exact Nat.add_le_add_right (Nat.div_mul_le_self _ _) _
  · exact Nat.le_refl _

/-- A blank takes no more columns than a tab. -/
theorem foldl_afterBlank_le (h : 0 < tabSize) (column : Nat) (blanks : Text) :
    blanks.foldl (afterBlank tabSize) column ≤ column + blanks.length * tabSize := by
  induction blanks generalizing column with
  | nil => exact Nat.le_add_right _ _
  | cons c blanks ih =>
    have hc := afterBlank_le tabSize column c
    have hone : (if c = '\t' then tabSize else 1) ≤ tabSize := by
      split_ifs
      · exact Nat.le_refl _
      · exact h
    have hrest := ih (afterBlank tabSize column c)
    rw [List.foldl_cons, List.length_cons, Nat.succ_mul]
    omega

/-- **Blanks have room one after the other.** For a space that is so, if all of them are
no wider than a word. -/
theorem tabsFit_cons (h : 0 < tabSize) (c : Char) :
    (TabsFit tabSize column (c :: blanks)
        ∧ (c :: blanks).foldl (afterBlank tabSize) column < UInt32.size)
      ↔ column + (if c = '\t' then tabSize else 1) < UInt32.size
        ∧ TabsFit tabSize (afterBlank tabSize column c) blanks
        ∧ blanks.foldl (afterBlank tabSize) (afterBlank tabSize column c) < UInt32.size := by
  have hwidth := add_length_le_foldl h (afterBlank tabSize column c) blanks
  have hfirst : TabsFit tabSize column (c :: blanks) ↔ (c = '\t' → column + tabSize < UInt32.size)
      ∧ TabsFit tabSize (afterBlank tabSize column c) blanks := by
    unfold TabsFit
    rw [List.length_cons, Nat.forall_lt_succ_left]
    simp only [List.getElem?_cons_zero, Option.some_inj, List.getElem?_cons_succ]
    exact Iff.rfl
  rw [hfirst, List.foldl_cons, and_assoc]
  refine and_congr_left fun ⟨_, htotal⟩ => ?_
  split_ifs with hc
  · exact forall_prop_of_true hc
  · rw [afterBlank, if_neg hc] at hwidth htotal
    exact iff_of_true (fun htab => absurd htab hc) ((Nat.le_of_add_right_le hwidth).trans_lt htotal)

/-- Canonical blanks have room for their tabs, if they are no wider than a word. -/
theorem IsCanonical.tabsFit (ht : IsCanonical tabSize withTabs t) (h : 0 < tabSize)
    (hwidth : t.blankWidth tabSize < UInt32.size) : TabsFit tabSize 0 t := by
  obtain ⟨tabs, spaces, rfl, -⟩ := ht
  rw [blankWidth_replicate h] at hwidth
  intro n _ htab
  have hlt : n < tabs := by
    by_contra hge
    have hlength := List.length_replicate (n := tabs) (a := '\t')
    rw [List.getElem?_append_right (by omega)] at htab
    exact absurd (List.eq_of_mem_replicate (List.mem_of_getElem? htab)) (by decide)
  have hstop := foldl_replicate_tab h 0 n
  rw [Nat.zero_mul, Nat.zero_add] at hstop
  rw [List.take_append_of_le_length (by rw [List.length_replicate]; exact hlt.le),
    List.take_replicate, Nat.min_eq_left hlt.le, hstop, ← Nat.succ_mul]
  exact ((Nat.mul_le_mul_right tabSize hlt).trans (Nat.le_add_right _ spaces)).trans_lt hwidth

/-! ## The shortest form -/

/-- One more blank asks for one more character at most, a tab for each tab stop and a space
for each column after the last. -/
theorem div_add_mod_afterBlank_le (h : 0 < tabSize) (column : Nat) (c : Char) :
    afterBlank tabSize column c / tabSize + afterBlank tabSize column c % tabSize
      ≤ column / tabSize + column % tabSize + 1 := by
  unfold afterBlank
  split_ifs
  · rw [Nat.mul_div_cancel _ h, Nat.mul_mod_left]
    omega
  · have hbefore := Nat.div_add_mod column tabSize
    have hafter := Nat.div_add_mod (column + 1) tabSize
    rw [Nat.succ_div] at hafter ⊢
    split_ifs at hafter ⊢
    · rw [Nat.mul_succ] at hafter
      omega
    · rw [Nat.add_zero] at hafter ⊢
      omega

theorem div_add_mod_foldl_le (h : 0 < tabSize) (column : Nat) (t : Text) :
    t.foldl (afterBlank tabSize) column / tabSize + t.foldl (afterBlank tabSize) column % tabSize
      ≤ column / tabSize + column % tabSize + t.length := by
  induction t generalizing column with
  | nil => exact Nat.le_refl _
  | cons c t ih =>
    have hc := div_add_mod_afterBlank_le h column c
    have ht := ih (afterBlank tabSize column c)
    rw [List.foldl_cons, List.length_cons]
    omega

/-- **With tabs the canonical form is the shortest** of all blanks of a width. -/
theorem IsCanonical.length_le (hs : IsCanonical tabSize true s) (h : 0 < tabSize)
    (heq : s.blankWidth tabSize = t.blankWidth tabSize) : s.length ≤ t.length := by
  have hle := div_add_mod_foldl_le h 0 t
  change t.blankWidth tabSize / tabSize + t.blankWidth tabSize % tabSize ≤ _ at hle
  obtain ⟨tabs, spaces, rfl, hspaces⟩ := hs
  rw [if_pos rfl] at hspaces
  rw [← heq, blankWidth_replicate h, Nat.mul_comm, Nat.mul_add_div h, Nat.mul_add_mod,
    Nat.div_eq_of_lt hspaces, Nat.mod_eq_of_lt hspaces, Nat.zero_div, Nat.zero_mod] at hle
  rw [List.length_append, List.length_replicate, List.length_replicate]
  omega

/-- Without tabs there are as many blanks as columns. -/
theorem IsCanonical.length_eq (hs : IsCanonical tabSize false s) (h : 0 < tabSize) :
    s.length = s.blankWidth tabSize := by
  obtain ⟨tabs, spaces, rfl, htabs⟩ := hs
  rw [if_neg Bool.false_ne_true] at htabs
  subst htabs
  rw [blankWidth_replicate h, List.length_append, List.length_replicate, List.length_replicate,
    Nat.zero_mul]

end Text

open Text

/-! ## Counting in words -/

namespace Checked

/-- **The column after one more blank** is computed exactly if the sum is a word, for a tab
the one with all of the tab size. -/
theorem computes_advance (tabSize column : UInt32) (c : Char) :
    Computes (advance tabSize column c)
      (column.toNat + (if c = '\t' then tabSize.toNat else 1) < UInt32.size)
      (.ofNat (afterBlank tabSize.toNat column.toNat c)) := by
  unfold advance afterBlank
  split_ifs
  · refine ((computes_add column tabSize).bind fun hsum => computes_some ?_).congr
      (and_iff_left trivial)
    -- what is beyond the last tab stop is part of the sum
    have hle : column % tabSize ≤ column + tabSize := by
      rw [UInt32.le_iff_toNat_le, UInt32.toNat_mod, toNat_add hsum]
      exact (Nat.mod_le _ _).trans (Nat.le_add_right _ _)
    have hstop : column.toNat + tabSize.toNat - column.toNat % tabSize.toNat
        = (column.toNat / tabSize.toNat + 1) * tabSize.toNat := by
      have hdiv := Nat.div_add_mod column.toNat tabSize.toNat
      rw [Nat.mul_comm] at hdiv
      rw [Nat.succ_mul]
      omega
    rw [sub_eq hle, Option.some_inj, ← hstop, ← toNat_add hsum, ← UInt32.toNat_mod,
      ← UInt32.toNat_sub_of_le _ _ hle, UInt32.ofNat_toNat]
  · refine (computes_add column 1).congr_value fun _ => ?_
    rw [UInt32.ofNat_add, UInt32.ofNat_toNat]
    rfl

/-- **The columns of blanks are counted without overflow** exactly if every tab has room
and they are no wider than a word. By induction on the blanks, from any column. -/
theorem computes_indentationWidth {tabSize : UInt32} (h : 0 < tabSize.toNat) (blanks : Text) :
    Computes (indentationWidth tabSize blanks)
      (blanks.TabsFit tabSize.toNat 0 ∧ blanks.blankWidth tabSize.toNat < UInt32.size)
      (.ofNat (blanks.blankWidth tabSize.toNat)) := by
  have hfold : ∀ (blanks : Text) (column : UInt32),
      Computes (blanks.foldlM (advance tabSize) column)
        (blanks.TabsFit tabSize.toNat column.toNat
          ∧ blanks.foldl (afterBlank tabSize.toNat) column.toNat < UInt32.size)
        (.ofNat (blanks.foldl (afterBlank tabSize.toNat) column.toNat)) := by
    intro blanks
    induction blanks with
    | nil =>
      intro column
      rw [List.foldl_nil, UInt32.ofNat_toNat]
      exact (computes_pure column).congr (iff_of_true trivial ⟨nofun, column.toNat_lt⟩)
    | cons c blanks ih =>
      intro column
      rw [List.foldlM_cons]
      refine ((computes_advance tabSize column c).bind fun hsum => ?_).congr (tabsFit_cons h c).symm
      have hrest := ih (.ofNat (afterBlank tabSize.toNat column.toNat c))
      rwa [UInt32.toNat_ofNat_of_lt' ((afterBlank_le _ _ c).trans_lt hsum)] at hrest
  exact hfold blanks 0

/-- A space and a tab of the largest size are that size wide, but the sum on the way is too
much. -/
example : blankWidth 4294967295 [' ', '\t'] = 4294967295
    ∧ ¬ TabsFit 4294967295 0 [' ', '\t'] := by decide +kernel

end Checked

/-! ## What is written -/

variable {tabSize : UInt32}

/-- **What is written for a width has that width.** -/
theorem blankWidth_canonicalBlanks (h : 0 < tabSize.toNat) (withTabs : Bool) (width : UInt32) :
    blankWidth tabSize.toNat (canonicalBlanks tabSize withTabs width) = width.toNat := by
  unfold canonicalBlanks
  split_ifs
  · rw [blankWidth_replicate h, UInt32.toNat_div, UInt32.toNat_mod, Nat.mul_comm]
    exact Nat.div_add_mod _ _
  · have hspaces := blankWidth_replicate h 0 width.toNat
    rwa [Nat.zero_mul, Nat.zero_add] at hspaces

/-- **What is written is canonical.** -/
theorem isCanonical_canonicalBlanks (h : 0 < tabSize.toNat) (withTabs : Bool) (width : UInt32) :
    IsCanonical tabSize.toNat withTabs (canonicalBlanks tabSize withTabs width) := by
  unfold canonicalBlanks IsCanonical
  cases withTabs with
  | false => exact ⟨0, width.toNat, rfl, rfl⟩
  | true =>
    refine ⟨_, _, rfl, ?_⟩
    rw [if_pos rfl, UInt32.toNat_mod]
    exact Nat.mod_lt _ h

/-! ## Widths -/

/-- The columns between tab stops. -/
def IndentSettings.tabStop (settings : IndentSettings) : Nat := max settings.tabSize.toNat 1

/-- The width that blanks of a width get. -/
def IndentDirection.newWidth (direction : IndentDirection) (unit width : Nat) : Nat :=
  match direction with
  | .more => width + unit
  | .less => width - unit

/-- A step is no more than the indentation unit. -/
theorem IndentDirection.newWidth_le (direction : IndentDirection) (unit width : Nat) :
    direction.newWidth unit width ≤ width + unit := by
  cases direction with
  | more => exact Nat.le_refl _
  | less => exact (Nat.sub_le _ _).trans (Nat.le_add_right _ _)

/-- What becomes of the blanks of a line, the canonical ones of the new width. -/
def IndentSettings.newBlanks (settings : IndentSettings) (direction : IndentDirection)
    (old : Text) : Text :=
  canonicalBlanks (max settings.tabSize 1) settings.withTabs
    (.ofNat (direction.newWidth settings.indentUnit.toNat (old.blankWidth settings.tabStop)))

/-- **The widths of blanks are words**, the old one and the new one. -/
def IndentSettings.WidthsFit (settings : IndentSettings) (direction : IndentDirection)
    (old : Text) : Prop :=
  old.blankWidth settings.tabStop < UInt32.size
    ∧ direction.newWidth settings.indentUnit.toNat (old.blankWidth settings.tabStop) < UInt32.size

instance (settings : IndentSettings) (direction : IndentDirection) (old : Text) :
    Decidable (settings.WidthsFit direction old) := inferInstanceAs (Decidable (_ ∧ _))

/-- **The new width is computed** exactly if it is a word. -/
theorem Checked.computes_target (direction : IndentDirection) (settings : IndentSettings)
    (width : UInt32) :
    Computes (direction.target settings width)
      (direction.newWidth settings.indentUnit.toNat width.toNat < UInt32.size)
      (.ofNat (direction.newWidth settings.indentUnit.toNat width.toNat)) := by
  cases direction with
  | more =>
    refine (computes_add width settings.indentUnit).congr_value fun _ => ?_
    rw [IndentDirection.newWidth, UInt32.ofNat_add, UInt32.ofNat_toNat, UInt32.ofNat_toNat]
  | less =>
    refine ((computes_pure _).congr (iff_of_true trivial
      ((Nat.sub_le _ _).trans_lt width.toNat_lt))).congr_value fun _ => ?_
    rw [IndentDirection.newWidth]
    split_ifs with hle
    · rw [← UInt32.toNat_sub_of_le _ _ hle, UInt32.ofNat_toNat]
    · rw [UInt32.le_iff_toNat_le, Nat.not_le] at hle
      rw [Nat.sub_eq_zero_of_le hle.le]
      rfl

namespace IndentSettings

variable {settings : IndentSettings} {direction : IndentDirection} {old : Text}

theorem tabStop_pos (settings : IndentSettings) : 0 < settings.tabStop :=
  Nat.lt_of_lt_of_le Nat.one_pos (Nat.le_max_right _ _)

theorem toNat_max_one (settings : IndentSettings) :
    (max settings.tabSize 1).toNat = settings.tabStop := UInt32.toNat_max _ _

/-- **New blanks have the new width.** -/
theorem blankWidth_newBlanks (h : settings.WidthsFit direction old) :
    (settings.newBlanks direction old).blankWidth settings.tabStop
      = direction.newWidth settings.indentUnit.toNat (old.blankWidth settings.tabStop) := by
  have hpos := settings.tabStop_pos
  rw [← toNat_max_one] at hpos
  have hwidth := blankWidth_canonicalBlanks hpos settings.withTabs
    (.ofNat (direction.newWidth settings.indentUnit.toNat (old.blankWidth settings.tabStop)))
  rwa [toNat_max_one, UInt32.toNat_ofNat_of_lt' h.2] at hwidth

theorem isCanonical_newBlanks (settings : IndentSettings) (direction : IndentDirection)
    (old : Text) :
    (settings.newBlanks direction old).IsCanonical settings.tabStop settings.withTabs := by
  have hpos := settings.tabStop_pos
  rw [← toNat_max_one] at hpos ⊢
  exact isCanonical_canonicalBlanks hpos _ _

theorem mem_newBlanks {c : Char} (h : c ∈ settings.newBlanks direction old) :
    c = ' ' ∨ c = '\t' := isIndent_of_mem_canonicalBlanks h

/-- Blanks are no more than their width. -/
theorem WidthsFit.length_lt (h : settings.WidthsFit direction old) : old.length < UInt32.size :=
  (length_le_blankWidth settings.tabStop_pos old).trans_lt h.1

theorem WidthsFit.length_newBlanks_lt (h : settings.WidthsFit direction old) :
    (settings.newBlanks direction old).length < UInt32.size :=
  ((length_le_blankWidth settings.tabStop_pos _).trans_eq (blankWidth_newBlanks h)).trans_lt h.2

end IndentSettings

end EditorCore
