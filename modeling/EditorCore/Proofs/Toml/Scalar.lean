import EditorCore.Proofs.Json.Token
import EditorCore.Toml.Scalar

/-!
# Reading TOML scalars back

A truth value is read back from its name, and a number from its decimal digits.
A number is an integer only where it is no date and no time, and these have
something between their digits; digits alone are neither (`isDateTime_of_isDigit`).
-/

namespace EditorCore

namespace Text

variable {t : Text}

/-- Every decimal digit has its value in base ten. -/
theorem digitValue?_of_isDigit {c : Char} (hc : c.isDigit) :
    digitValue? 10 c = some (c.toNat - '0'.toNat) := by
  have hle : c.toNat ≤ '9'.toNat := by
    have hdigit := hc
    simp only [Char.isDigit, Bool.and_eq_true, decide_eq_true_eq] at hdigit
    exact UInt32.le_iff_toNat_le.1 hdigit.2
  rw [digitValue?, hexValue?, if_pos hc, Option.filter_some, if_pos]
  rw [decide_eq_true_eq]
  have hnine : '9'.toNat = 57 := rfl
  have hzero : '0'.toNat = 48 := rfl
  omega

/-- **Decimal digits are read** as the number they write. -/
theorem digits?_of_isDigit (h : ∀ c ∈ t, c.isDigit) :
    digits? 10 t = some (Nat.ofDigitChars 10 t 0) := by
  suffices ∀ n, t.foldlM (fun n c => (digitValue? 10 c).map (10 * n + ·)) n
      = some (Nat.ofDigitChars 10 t n) from this 0
  induction t with
  | nil => exact fun _ => rfl
  | cons c t ih =>
    obtain ⟨hc, ht⟩ := List.forall_mem_cons.1 h
    intro n
    rw [List.foldlM_cons, digitValue?_of_isDigit hc]
    exact ih ht _

end Text

namespace Toml

variable {t : Text}

/-! ## Dates and times -/

theorem snd_of_digitsOf? {count : Nat} {r : Nat × Text} (h : digitsOf? count t = some r) :
    r.2 = t.drop count := by
  dsimp only [digitsOf?] at h
  split_ifs at h
  rw [← Option.some.inj h]

theorem after?_of_forall {p : Char → Bool} (h : ∀ c ∈ t, p c = false) : after? p t = none := by
  cases t with
  | nil => rfl
  | cons c t => rw [after?, h c List.mem_cons_self, if_neg Bool.false_ne_true]

/-- **Digits alone are no date and no time**: both have something between their
digits. -/
theorem isDateTime_of_isDigit (h : ∀ c ∈ t, c.isDigit) : isDateTime t = false := by
  have hafter : ∀ count r, digitsOf? count t = some r → ∀ c : Char, ¬ c.isDigit →
      after? (· == c) r.2 = none := by
    intro count r hr c hc
    refine after?_of_forall fun d hd => beq_eq_false_iff_ne.2 ?_
    rw [snd_of_digitsOf? hr] at hd
    rintro rfl
    exact hc (h d (List.mem_of_mem_drop hd))
  have hdate : date? t = none := by
    rw [date?]
    cases hr : digitsOf? 4 t with
    | none => rfl
    | some r => simp only [Option.bind_eq_bind, Option.bind_some, hafter 4 r hr '-' (by decide),
        Option.bind_none]
  have htime : time? t = none := by
    rw [time?]
    cases hr : digitsOf? 2 t with
    | none => rfl
    | some r => simp only [Option.bind_eq_bind, Option.bind_some, hafter 2 r hr ':' (by decide),
        Option.bind_none]
  rw [isDateTime, isDate, hdate, htime]
  rfl

/-! ## Integers -/

/-- Digits are not grouped. -/
theorem ungrouped?_of_isDigit (h : ∀ c ∈ t, c.isDigit) : ungrouped? t = some t := by
  induction t with
  | nil => rfl
  | cons c t ih =>
    obtain ⟨hc, ht⟩ := List.forall_mem_cons.1 h
    have hnot : '_' ∉ c :: t := fun hmem => absurd (h _ hmem) (by decide)
    rw [ungrouped?.eq_4 c t (fun heq => hnot (heq ▸ List.mem_cons_self))
      fun d heq => hnot (heq ▸ List.mem_cons_of_mem c List.mem_cons_self), ih ht, Option.map_some]

/-- Before digits there is nothing. -/
theorem splitLead_of_isDigit (h : ∀ c ∈ t, c.isDigit) : splitLead t = (false, false, t) := by
  have hnot : ∀ c : Char, ¬ c.isDigit → ∀ s, t = c :: s → False :=
    fun c hc s heq => hc (h c (heq ▸ List.mem_cons_self))
  rw [splitLead, Text.splitSign.eq_3 t (hnot '+' (by decide)) (hnot '-' (by decide))]
  dsimp only
  split
  · exact absurd rfl (hnot '_' (by decide) _)
  · rfl

/-- **Digits without leading zeros are an integer.** -/
theorem decimal?_of_isDigit (h : ∀ c ∈ t, c.isDigit) (hne : t ≠ [])
    (hzero : t = ['0'] ∨ t.head? ≠ some '0') :
    decimal? t = some (.integer (some (Nat.ofDigitChars 10 t 0))) := by
  have hfirst : t.takeWhile Char.isDigit = t := List.takeWhile_eq_self_iff.2 h
  have hplain : (t.all fun c => c != '.' && c != 'e' && c != 'E') = true := by
    rw [List.all_eq_true]
    intro c hc
    have hdigit := h c hc
    simp only [Bool.and_eq_true, bne_iff_ne]
    refine ⟨⟨?_, ?_⟩, ?_⟩ <;> rintro rfl <;> exact absurd hdigit (by decide)
  rw [decimal?, splitLead_of_isDigit h]
  dsimp only
  rw [hfirst, hplain, ungrouped?_of_isDigit h]
  simp [hne, hzero, Text.digits?_of_isDigit h]

/-- The decimal digits of a number. -/
theorem integer?_ofNat (n : Nat) : integer? (Text.ofNat n) = some (.integer (some n)) := by
  have hdigit : ∀ c ∈ Text.ofNat n, c.isDigit := fun c => Numeral.isDigit_of_mem_ofNat
  have hnot : ∀ c : Char, ¬ c.isDigit → ∀ s, Text.ofNat n = '0' :: c :: s → False :=
    fun c hc s heq => hc (hdigit c (heq ▸ List.mem_cons_of_mem _ List.mem_cons_self))
  have hzero : Text.ofNat n = ['0'] ∨ (Text.ofNat n).head? ≠ some '0' := by
    by_cases hn : n = 0
    · exact .inl (hn ▸ rfl)
    · exact .inr (Numeral.head?_ofNat hn)
  rw [integer?.eq_4 _ (hnot 'x' (by decide)) (hnot 'o' (by decide)) (hnot 'b' (by decide)),
    decimal?_of_isDigit hdigit Nat.toDigits_ne_nil hzero, Text.ofNat,
    Nat.ofDigitChars_ten_toDigits]

/-! ## Scalars -/

/-- **A number is read back** from its decimal digits. -/
theorem scalar?_ofNat (n : Nat) : scalar? (Text.ofNat n) = some (.integer (some n)) := by
  have hdigit : ∀ c ∈ Text.ofNat n, c.isDigit := fun c => Numeral.isDigit_of_mem_ofNat
  have hnot : ∀ t : Text, (∃ c ∈ t, ¬ c.isDigit) → Text.ofNat n ≠ t :=
    fun t ⟨c, hc, hno⟩ heq => hno (hdigit c (heq ▸ hc))
  have htrue : Text.ofNat n ≠ "true".toList := hnot _ ⟨'t', by simp, by decide⟩
  have hfalse : Text.ofNat n ≠ "false".toList := hnot _ ⟨'f', by simp, by decide⟩
  rw [scalar?, if_neg htrue, if_neg hfalse,
    isDateTime_of_isDigit hdigit, if_neg Bool.false_ne_true, integer?_ofNat]
  rfl

end Toml

end EditorCore
