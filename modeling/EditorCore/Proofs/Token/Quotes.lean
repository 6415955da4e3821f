import EditorCore.Proofs.Token.Bytes

/-!
# The quotes that close a string

A string over many lines is closed by three quotes, and a backslash in it skips a byte,
so that not all of its bytes are looked at. Those that are, the bytes that are
**reached** (`ByteScan.Reaches`), depend on nothing but the backslashes, and the string
ends with the first three quotes among them (`Scan.tripleQuoted_eq_some`), or nowhere
where there are none (`Scan.noQuotes_of_tripleQuoted`).
-/

namespace EditorCore

/-- The three quotes that open and close a string over many lines. -/
def Text.quotes : Text := ['"', '"', '"']

/-! ## Bytes that are reached -/

namespace ByteScan

open Text

variable {bs : List UInt8} {b : UInt8} {i j k : Nat}

/-- **The bytes that are reached** from the start: a backslash skips the byte after
it. -/
inductive Reaches : List UInt8 → Nat → Prop
  | start {bs : List UInt8} : Reaches bs 0
  | skip {b : UInt8} {bs : List UInt8} {i : Nat} : Reaches bs i →
      Reaches ('\\'.toUInt8 :: b :: bs) (i + 2)
  | step {b : UInt8} {bs : List UInt8} {i : Nat} : b ≠ '\\'.toUInt8 → Reaches bs i →
      Reaches (b :: bs) (i + 1)

/-- Three quotes stand at a byte. -/
def QuotesAt (bs : List UInt8) (i : Nat) : Prop := quotes.utf8 <+: bs.drop i

/-- **The first three quotes that are reached.** -/
structure FirstQuotes (bs : List UInt8) (i : Nat) : Prop where
  reaches : Reaches bs i
  quotesAt : QuotesAt bs i
  first : ∀ j < i, Reaches bs j → ¬ QuotesAt bs j

/-- No three quotes are reached. -/
def NoQuotes (bs : List UInt8) : Prop := ∀ i, Reaches bs i → ¬ QuotesAt bs i

theorem reaches_backslash :
    Reaches ('\\'.toUInt8 :: b :: bs) i ↔ i = 0 ∨ ∃ j, i = j + 2 ∧ Reaches bs j := by
  constructor
  · intro h
    cases h with
    | start => exact .inl rfl
    | skip h => exact .inr ⟨_, rfl, h⟩
    | step hne => exact absurd rfl hne
  · rintro (rfl | ⟨j, rfl, h⟩)
    · exact .start
    · exact .skip h

theorem reaches_cons (hb : b ≠ '\\'.toUInt8) :
    Reaches (b :: bs) i ↔ i = 0 ∨ ∃ j, i = j + 1 ∧ Reaches bs j := by
  constructor
  · intro h
    cases h with
    | start => exact .inl rfl
    | skip h => exact absurd rfl hb
    | step _ h => exact .inr ⟨_, rfl, h⟩
  · rintro (rfl | ⟨j, rfl, h⟩)
    · exact .start
    · exact .step hb h

theorem QuotesAt.le (h : QuotesAt bs i) : i + 3 ≤ bs.length := by
  have hlength := h.length_le
  rw [List.length_drop] at hlength
  change 3 ≤ _ at hlength
  omega

theorem FirstQuotes.not_noQuotes (h : FirstQuotes bs i) : ¬ NoQuotes bs := fun hnone =>
  hnone i h.reaches h.quotesAt

/-- **A scan that goes on `k` bytes later** finds the same quotes, `k` bytes later. -/
theorem firstQuotes_add (hnot : ¬ QuotesAt bs 0)
    (hreaches : ∀ i, Reaches bs i ↔ i = 0 ∨ ∃ j, i = j + k ∧ Reaches (bs.drop k) j)
    (h : FirstQuotes (bs.drop k) j) : FirstQuotes bs (j + k) := by
  have hquotes (j : Nat) : QuotesAt bs (j + k) ↔ QuotesAt (bs.drop k) j := by
    rw [QuotesAt, QuotesAt, List.drop_drop, Nat.add_comm]
  refine ⟨(hreaches _).2 (.inr ⟨j, rfl, h.reaches⟩), (hquotes j).2 h.quotesAt, fun i hi hr => ?_⟩
  obtain rfl | ⟨m, rfl, hm⟩ := (hreaches i).1 hr
  · exact hnot
  · rw [hquotes]
    exact h.first m (by omega) hm

theorem noQuotes_add (hnot : ¬ QuotesAt bs 0)
    (hreaches : ∀ i, Reaches bs i ↔ i = 0 ∨ ∃ j, i = j + k ∧ Reaches (bs.drop k) j)
    (h : NoQuotes (bs.drop k)) : NoQuotes bs := by
  intro i hr
  obtain rfl | ⟨j, rfl, hj⟩ := (hreaches i).1 hr
  · exact hnot
  · rw [QuotesAt, Nat.add_comm, ← List.drop_drop]
    exact h j hj

/-- **A triple-quoted string ends with the first three quotes that are reached**, if
there are any. -/
theorem firstQuotes_tripleQuoted (bs : List UInt8) :
    (∀ n, tripleQuoted bs = some n → ∃ i, n = i + 3 ∧ FirstQuotes bs i)
      ∧ (tripleQuoted bs = none → NoQuotes bs) := by
  fun_induction tripleQuoted bs with
  | case1 => exact ⟨nofun, fun _ i _ hq => absurd hq.le (by simp)⟩
  | case2 b => exact ⟨nofun, fun _ i _ hq => absurd hq.le (by simp)⟩
  | case3 b bs ih =>
    have hnot : ¬ QuotesAt ('\\'.toUInt8 :: b :: bs) 0 := fun h =>
      absurd (List.cons_prefix_cons.1 h).1 (by decide)
    have hreaches (i : Nat) := @reaches_backslash bs b i
    refine ⟨fun n hn => ?_, fun hn => ?_⟩
    · obtain ⟨m, hm, rfl⟩ := Option.map_eq_some_iff.1 hn
      obtain ⟨i, rfl, hi⟩ := ih.1 m hm
      exact ⟨i + 2, Nat.add_right_comm i 3 2, firstQuotes_add (k := 2) hnot hreaches hi⟩
    · exact noQuotes_add (k := 2) hnot hreaches (ih.2 (Option.map_eq_none_iff.1 hn))
  | case4 a b bs hskip hquotes =>
    obtain ⟨rfl, rfl, hhead⟩ := hquotes
    obtain ⟨cs, rfl⟩ := List.head?_eq_some_iff.1 hhead
    refine ⟨fun n hn => ⟨0, (Option.some.inj hn).symm, .start, ⟨cs, rfl⟩, fun j hj => ?_⟩, nofun⟩
    exact absurd hj (Nat.not_lt_zero j)
  | case5 a b bs hskip hquotes ih =>
    have hnot : ¬ QuotesAt (a :: b :: bs) 0 := by
      rintro ⟨cs, hcs⟩
      change '"'.toUInt8 :: '"'.toUInt8 :: '"'.toUInt8 :: cs = a :: b :: bs at hcs
      rw [List.cons.injEq, List.cons.injEq] at hcs
      obtain ⟨ha, hb, hbs⟩ := hcs
      exact hquotes ⟨ha.symm, hb.symm, by rw [← hbs, List.head?_cons]⟩
    have hreaches (i : Nat) := @reaches_cons (b :: bs) a i hskip
    refine ⟨fun n hn => ?_, fun hn => ?_⟩
    · obtain ⟨m, hm, rfl⟩ := Option.map_eq_some_iff.1 hn
      obtain ⟨i, rfl, hi⟩ := ih.1 m hm
      exact ⟨i + 1, Nat.add_right_comm i 3 1, firstQuotes_add (k := 1) hnot hreaches hi⟩
    · exact noQuotes_add (k := 1) hnot hreaches (ih.2 (Option.map_eq_none_iff.1 hn))

end ByteScan

namespace Scan

open Text

variable {t : Text}

/-! ## Triple-quoted strings -/

theorem exists_of_tripleQuoted {n : Nat} (h : tripleQuoted t = some n) :
    ∃ body rest, t = body ++ (quotes ++ rest) ∧ n = body.length + 3 := by
  fun_induction tripleQuoted t generalizing n with
  | case1 c t ih =>
    obtain ⟨m, hm, rfl⟩ := Option.map_eq_some_iff.1 h
    obtain ⟨body, rest, rfl, rfl⟩ := ih hm
    exact ⟨'\\' :: c :: body, rest, rfl, rfl⟩
  | case2 t =>
    obtain rfl := Option.some.inj h
    exact ⟨[], t, rfl, rfl⟩
  | case3 c t _ _ ih =>
    obtain ⟨m, hm, rfl⟩ := Option.map_eq_some_iff.1 h
    obtain ⟨body, rest, rfl, rfl⟩ := ih hm
    exact ⟨c :: body, rest, rfl, rfl⟩
  | case4 => exact absurd h.symm (Option.some_ne_none n)

/-- **What closes a triple-quoted string** are the first three quotes that are
reached behind those that open it, counted in bytes. -/
theorem tripleQuoted_eq_some {n : Nat} (h : tripleQuoted t = some n) :
    ∃ body rest, t = body ++ (quotes ++ rest) ∧ n = body.length + 3
      ∧ ByteScan.FirstQuotes t.utf8 body.byteSize := by
  obtain ⟨body, rest, ht, rfl⟩ := exists_of_tripleQuoted h
  obtain ⟨i, hi, hfirst⟩ := (ByteScan.firstQuotes_tripleQuoted t.utf8).1 _
    (by rw [ByteScan.tripleQuoted_utf8, h, Option.map_some])
  have htake : t.take (body.length + 3) = body ++ quotes := by
    rw [ht, ← List.append_assoc]
    exact List.take_left' (by rw [List.length_append]; rfl)
  rw [htake, byteSize_append] at hi
  obtain rfl : body.byteSize = i := Nat.add_right_cancel hi
  exact ⟨body, rest, ht, rfl, hfirst⟩

theorem noQuotes_of_tripleQuoted (h : tripleQuoted t = none) : ByteScan.NoQuotes t.utf8 :=
  (ByteScan.firstQuotes_tripleQuoted t.utf8).2
    (by rw [ByteScan.tripleQuoted_utf8, h, Option.map_none])

end Scan

end EditorCore
