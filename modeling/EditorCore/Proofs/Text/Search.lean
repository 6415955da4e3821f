import EditorCore.Proofs.Text.Columns
import EditorCore.Text.Blank
import EditorCore.Text.Search

/-!
# What searching finds

The searches of a line, each told by how the line is made up: a word
at its start is followed by what cannot continue it, a first occurrence has
no other before it, and blanks are dropped up to the first character that is
none.
-/

namespace EditorCore.Text

/-! ## Words -/

/-- **A text starts with a word**: it goes on with nothing that continues
the word. -/
def StartsWithWord (t word : Text) : Prop :=
  ∃ rest, t = word ++ rest ∧ ∀ c ∈ rest.head?, isWordChar c = false

theorem dropWord?_eq_some_iff {t word rest : Text} :
    t.dropWord? word = some rest ↔ t = word ++ rest := by
  unfold dropWord?
  split_ifs with h
  · obtain ⟨u, rfl⟩ := List.isPrefixOf_iff_prefix.1 h
    rw [List.drop_left, Option.some.injEq, List.append_cancel_left_eq]
  · refine ⟨nofun, ?_⟩
    rintro rfl
    exact absurd (List.isPrefixOf_iff_prefix.2 (List.prefix_append word rest)) h

theorem startsWithWord_iff {t word : Text} : t.startsWithWord word ↔ t.StartsWithWord word := by
  unfold startsWithWord StartsWithWord
  rw [Option.any_eq_true]
  refine exists_congr fun rest => ?_
  rw [dropWord?_eq_some_iff, Bool.not_eq_true', Option.any_eq_false]
  simp only [Option.mem_def]

instance (t word : Text) : Decidable (t.StartsWithWord word) :=
  decidable_of_iff _ startsWithWord_iff

/-! ## First occurrences -/

/-- **The first occurrence of a text**: it is found after `n` characters, and
nowhere before. -/
def FirstAt (t part : Text) (n : Nat) : Prop :=
  part <+: t.drop n ∧ n ≤ t.length ∧ ∀ m < n, ¬ part <+: t.drop m

theorem find?_eq_some_iff {t part : Text} {n : Nat} :
    t.find? part = some n ↔ t.FirstAt part n := by
  induction t generalizing n with
  | nil =>
    unfold find? FirstAt
    split_ifs with h
    · rw [List.isPrefixOf_iff_prefix] at h
      simp only [Option.some.injEq, List.length_nil, List.drop_nil]
      exact ⟨fun hn => hn ▸ ⟨h, Nat.le_refl 0, nofun⟩, fun hn => by omega⟩
    · rw [List.isPrefixOf_iff_prefix] at h
      exact ⟨nofun, fun hn => absurd (List.drop_nil ▸ hn.1) h⟩
  | cons c t ih =>
    unfold find?
    split_ifs with h
    · rw [List.isPrefixOf_iff_prefix] at h
      rw [Option.some.injEq]
      refine ⟨fun hn => hn ▸ ⟨h, Nat.zero_le _, nofun⟩, fun hn => ?_⟩
      by_contra hne
      exact hn.2.2 0 (Nat.pos_of_ne_zero (Ne.symm hne)) h
    · rw [List.isPrefixOf_iff_prefix] at h
      dsimp only
      cases n with
      | zero => exact ⟨fun hn => by simp at hn, fun hn => absurd hn.1 h⟩
      | succ n =>
        rw [Option.map_eq_some_iff]
        simp only [Nat.add_right_cancel_iff, exists_eq_right, ih, FirstAt, List.drop_succ_cons,
          List.length_cons, Nat.add_le_add_iff_right]
        refine and_congr_right fun _ => and_congr_right fun _ =>
          ⟨fun hn m hm => ?_, fun hn m hm => ?_⟩
        · cases m with
          | zero => exact h
          | succ m => exact hn m (Nat.lt_of_succ_lt_succ hm)
        · exact hn (m + 1) (Nat.succ_lt_succ hm)

/-! ## Leading characters -/

/-- Leading characters of a kind end where one of another kind follows them, or
nothing does. -/
theorem takeWhile_append_of_head? {p : Char → Bool} {s t : Text} (hs : ∀ c ∈ s, p c)
    (ht : ∀ c ∈ t.head?, p c = false) : (s ++ t).takeWhile p = s := by
  rw [List.takeWhile_append_of_pos hs]
  cases t with
  | nil => exact List.append_nil s
  | cons c t =>
    rw [List.takeWhile_cons_of_neg (Bool.eq_false_iff.1 (ht c rfl)), List.append_nil]

/-- A text is its leading characters of a kind and what is left without them. -/
theorem exists_takeWhile_append (p : Char → Bool) (t : Text) :
    ∃ s u, t = s ++ u ∧ (∀ c ∈ s, p c) ∧ ∀ c ∈ u.head?, p c = false := by
  refine ⟨t.takeWhile p, t.dropWhile p, List.takeWhile_append_dropWhile.symm,
    fun _ hc => List.mem_takeWhile_imp hc, fun c hc => ?_⟩
  have hnot := List.head?_dropWhile_not p t
  rwa [Option.mem_def.1 hc] at hnot

/-! ## Blanks -/

/-- Dropping blanks up to a character that is none. -/
theorem dropBlanks_append {blanks t : Text} (hb : ∀ c ∈ blanks, isBlank c)
    (ht : ∀ c ∈ t.head?, ¬ isBlank c) : (blanks ++ t).dropBlanks = t := by
  rw [dropBlanks, List.dropWhile_append_of_pos hb]
  cases t with
  | nil => rfl
  | cons c t => exact List.dropWhile_cons_of_neg (ht c rfl)

/-- A text is its leading blanks and what is left without them. -/
theorem exists_blanks_append_dropBlanks (t : Text) :
    ∃ blanks, t = blanks ++ t.dropBlanks ∧ ∀ c ∈ blanks, isBlank c :=
  ⟨t.takeWhile isBlank, List.takeWhile_append_dropWhile.symm, fun _ hc => List.mem_takeWhile_imp hc⟩

end EditorCore.Text
