import EditorCore.Json.Token
import EditorCore.Proofs.Text.Search

/-!
# Reading JSON tokens back

Every token is read back from its text, whatever comes after it: a string ends
at the quote that writing has escaped everywhere within it, a word or a bracket
where it does. Only a number could go on into what follows, and does not where
that starts with none of the characters of a number (`Text.EndsNumber`). The
numbers here are those without a sign, a fraction or an exponent, and the
strings those with a text (`JsonToken.Plain`).
-/

namespace EditorCore

/-! ## Strings -/

namespace JsonString

variable {c e : Char} {p : Nat}

/-- A character escaped by letter is read as what the letter stands for. -/
theorem scan?_escaped (hp : escaped? e = some p) (t : Text) :
    scan? ('\\' :: e :: t) = (scan? t).map fun r => (p :: r.1, r.2 + 2) := by
  have hu : e ≠ 'u' := by
    rintro rfl
    exact absurd hp nofun
  rw [scan?.eq_4 _ _ fun _ _ _ _ _ he _ => hu he, hp]
  cases scan? t <;> rfl

/-- A control character escaped by number is read as itself. -/
theorem scan?_control (hp : p < 32) (t : Text) :
    scan? ('\\' :: 'u' :: '0' :: '0' :: hexDigit (p / 16) :: hexDigit (p % 16) :: t)
      = (scan? t).map fun r => (p :: r.1, r.2 + 6) := by
  have hdigits : ∀ p < 32, Text.digits? 16 ['0', '0', hexDigit (p / 16), hexDigit (p % 16)]
      = some p := by decide
  rw [scan?, hdigits p hp]
  cases scan? t <;> rfl

/-- Any other character is read as itself. -/
theorem scan?_plain (hquote : c ≠ '"') (hbackslash : c ≠ '\\') (hspace : ¬ c < ' ') (t : Text) :
    scan? (c :: t) = (scan? t).map fun r => (c.toNat :: r.1, r.2 + 1) := by
  rw [scan?.eq_5 _ _ hquote (fun _ _ _ _ _ h _ => hbackslash h) fun _ _ h _ => hbackslash h,
    if_neg (by simp [hspace, hbackslash])]
  cases scan? t <;> rfl

/-- **What writes a character is read as that character.** -/
theorem scan?_escape (c : Char) (t : Text) :
    scan? (escape c ++ t)
      = (scan? t).map fun r => (c.toNat :: r.1, r.2 + (escape c).length) := by
  unfold escape
  have hescaped {d e : Char} (he : escaped? e = some d.toNat) (hc : c = d) :
      scan? (['\\', e] ++ t) = (scan? t).map fun r => (c.toNat :: r.1, r.2 + 2) :=
    hc ▸ scan?_escaped he t
  split_ifs with hquote hbackslash hb hf hn hr ht hspace
  · exact hescaped rfl hquote
  · exact hescaped rfl hbackslash
  · exact hescaped rfl hb
  · exact hescaped rfl hf
  · exact hescaped rfl hn
  · exact hescaped rfl hr
  · exact hescaped rfl ht
  · exact scan?_control (UInt32.lt_iff_toNat_lt.1 hspace) t
  · exact scan?_plain hquote hbackslash hspace t

/-- **A string is read back** with its closing quote, whatever follows it. -/
theorem scan?_flatMap_escape (s rest : Text) :
    scan? (s.flatMap escape ++ '"' :: rest)
      = some (s.map Char.toNat, (s.flatMap escape).length + 1) := by
  induction s with
  | nil => rfl
  | cons c s ih =>
    rw [List.flatMap_cons, List.append_assoc, scan?_escape, ih, Option.map_some,
      List.length_append]
    refine congrArg some (Prod.ext rfl ?_)
    show _ + 1 + _ = _
    omega

/-- No character is half of a surrogate pair. -/
theorem not_isHalf (c : Char) : isHighHalf c.toNat = false ∧ isLowHalf c.toNat = false := by
  have hvalid : c.toNat < 0xd800 ∨ 0xdfff < c.toNat ∧ c.toNat < 0x110000 := c.valid
  rw [isHighHalf, isLowHalf]
  simp only [Bool.and_eq_false_iff, decide_eq_false_iff_not]
  omega

/-- **The code points of a text spell it.** -/
theorem textOf?_map_toNat (s : Text) : textOf? (s.map Char.toNat) = some s := by
  induction s with
  | nil => rfl
  | cons c s ih =>
    obtain ⟨hhigh, hlow⟩ := not_isHalf c
    cases s with
    | nil =>
      rw [List.map_singleton, textOf?, hhigh, hlow, Char.ofNat_toNat]
      rfl
    | cons d s =>
      rw [List.map_cons, List.map_cons, textOf?, hhigh, hlow, ← List.map_cons, ih, Char.ofNat_toNat]
      rfl

end JsonString

/-! ## Numbers -/

/-- **A text does not go on with a number.** -/
def Text.EndsNumber (t : Text) : Prop :=
  ∀ c ∈ t.head?, c.isDigit = false ∧ c ≠ '.' ∧ c ≠ 'e' ∧ c ≠ 'E'

namespace Numeral

variable {n : Nat} {rest : Text}

theorem isDigit_of_mem_ofNat {c : Char} (hc : c ∈ Text.ofNat n) : c.isDigit :=
  Nat.isDigit_of_mem_toDigits (by decide) (by decide) hc

/-- No number but zero starts with a zero. -/
theorem head?_ofNat (hn : n ≠ 0) : (Text.ofNat n).head? ≠ some '0' := by
  induction n using Nat.strong_induction_on with
  | h n ih =>
    rw [Text.ofNat, Nat.toDigits_eq_if (by decide)]
    split_ifs with hlt
    · rw [List.head?_cons, Ne, Option.some.injEq, Nat.digitChar_eq_zero]
      exact hn
    · rw [List.head?_append_of_ne_nil _ Nat.toDigits_ne_nil]
      exact ih (n / 10) (by omega) (by omega)

theorem scanWhole?_ofNat (n : Nat) (h : rest.EndsNumber) :
    scanWhole? (Text.ofNat n ++ rest) = some (n, (Text.ofNat n).length) := by
  have hne : Text.ofNat n ≠ [] := Nat.toDigits_ne_nil
  have hhead : (Text.ofNat n ++ rest).head? = (Text.ofNat n).head? :=
    List.head?_append_of_ne_nil _ hne
  unfold scanWhole?
  rw [hhead]
  by_cases hn : n = 0
  · subst hn
    rfl
  · have htake : (Text.ofNat n ++ rest).takeWhile Char.isDigit = Text.ofNat n :=
      Text.takeWhile_append_of_head? (fun c => isDigit_of_mem_ofNat) fun c hc => (h c hc).1
    rw [if_neg (head?_ofNat hn), digits?, htake, if_neg (by simpa using hne), Option.map_some,
      Text.ofNat, Nat.ofDigitChars_ten_toDigits]

/-- **A number is read back**, whatever follows that does not go on with it. -/
theorem scan?_ofNat (n : Nat) (h : rest.EndsNumber) :
    scan? (Text.ofNat n ++ rest) = some (.ofNat n, (Text.ofNat n).length) := by
  have hne : Text.ofNat n ≠ [] := Nat.toDigits_ne_nil
  have hsign : (Text.ofNat n ++ rest).head? ≠ some '-' := by
    rw [List.head?_append_of_ne_nil _ hne]
    intro hhead
    exact absurd (isDigit_of_mem_ofNat (List.mem_of_mem_head? hhead)) (by decide)
  have hfraction : scanFraction? rest = some (none, 0) :=
    scanFraction?.eq_2 _ fun t ht => (h '.' (congrArg List.head? ht)).2.1 rfl
  have hexponent : scanExponent? rest = some (none, 0) := by
    cases rest with
    | nil => rfl
    | cons c rest =>
      obtain ⟨-, -, he, hE⟩ := h c rfl
      rw [scanExponent?, if_neg (by simp [he, hE])]
  unfold scan?
  rw [if_neg hsign]
  simp only [List.drop_zero, scanWhole?_ofNat n h, Option.bind_eq_bind, Option.bind_some,
    Nat.zero_add, List.drop_left, hfraction, Nat.add_zero, hexponent]
  rfl

end Numeral

/-! ## Tokens -/

namespace JsonToken

variable {token : JsonToken} {rest : Text}

/-- **A token that writing produces**: its number has no sign, fraction or
exponent, its string has a text. -/
def Plain : JsonToken → Prop
  | number n => ∃ k, n = .ofNat k
  | string s => ∃ t, s = some t
  | _ => True

/-- A token and what follows it. -/
theorem ofText?_cons_append {c : Char} {s : Text} (hblank : isJsonBlank c = false)
    (h : scan? c (s ++ rest) = some (token, s.length)) :
    ofText? (c :: (s ++ rest)) = (ofText? rest).map (token :: ·) := by
  rw [ofText?, if_neg (by simp [hblank]), h]
  dsimp only
  rw [List.drop_left]

theorem ofText?_string (t rest : Text) :
    ofText? (JsonString.render (some t) ++ rest)
      = (ofText? rest).map (string (some t) :: ·) := by
  rw [JsonString.render, List.cons_append]
  refine ofText?_cons_append rfl ?_
  rw [scan?, List.append_assoc, List.singleton_append, JsonString.scan?_flatMap_escape,
    Option.map_some, List.length_append]
  dsimp only
  rw [JsonString.textOf?_map_toNat]
  rfl

/-- What starts with a digit is read as a number. -/
theorem scan?_of_isDigit {c : Char} (hc : c.isDigit) (t : Text) :
    scan? c t = (Numeral.scan? (c :: t)).map fun r => (number r.1, r.2 - 1) := by
  unfold scan?
  split
  case h_11 => rfl
  all_goals exact absurd hc (by decide)

theorem ofText?_number (n : Nat) (h : rest.EndsNumber) :
    ofText? ((Numeral.ofNat n).render ++ rest)
      = (ofText? rest).map (number (.ofNat n) :: ·) := by
  have hrender : (Numeral.ofNat n).render = Text.ofNat n := by
    simp [Numeral.render, Numeral.ofNat]
  have hne : Text.ofNat n ≠ [] := Nat.toDigits_ne_nil
  have hdigit : ∀ c ∈ Text.ofNat n, c.isDigit := fun c => Numeral.isDigit_of_mem_ofNat
  have hscan := Numeral.scan?_ofNat n h
  rw [hrender]
  generalize Text.ofNat n = ds at hne hdigit hscan ⊢
  obtain ⟨c, s, rfl⟩ := List.exists_cons_of_ne_nil hne
  have hc := hdigit c List.mem_cons_self
  have hblank : isJsonBlank c = false := by
    rw [Bool.eq_false_iff]
    intro hblank
    simp only [isJsonBlank, Bool.or_eq_true, beq_iff_eq] at hblank
    rcases hblank with ((rfl | rfl) | rfl) | rfl <;> exact absurd hc (by decide)
  refine ofText?_cons_append hblank ?_
  rw [List.cons_append] at hscan
  rw [scan?_of_isDigit hc, hscan]
  rfl

/-- **A token is read back**, and what follows it after it. -/
theorem ofText?_render (h : token.Plain) (hrest : ∀ n, token = number n → rest.EndsNumber) :
    ofText? (token.render ++ rest) = (ofText? rest).map (token :: ·) := by
  cases token with
  | string s =>
    obtain ⟨t, rfl⟩ := h
    exact ofText?_string t rest
  | number n =>
    obtain ⟨k, rfl⟩ := h
    exact ofText?_number k (hrest _ rfl)
  | bool b => cases b <;> exact ofText?_cons_append rfl rfl
  | null => exact ofText?_cons_append rfl rfl
  | _ => exact ofText?_cons_append (s := []) rfl rfl

/-! ## Sequences of tokens -/

variable {ts us : List JsonToken}

/-- **Tokens are read back** from their texts, whatever follows that does not go
on with a number. -/
def ReadBack (ts : List JsonToken) : Prop :=
  ∀ rest : Text, rest.EndsNumber →
    ofText? (ts.flatMap render ++ rest) = (ofText? rest).map (ts ++ ·)

theorem readBack_nil : ReadBack [] := fun _ _ => Option.map_id'.symm

theorem readBack_number (n : Nat) : ReadBack [number (.ofNat n)] := by
  intro rest hrest
  rw [List.flatMap_singleton]
  exact ofText?_number n hrest

/-- Any other token may be followed by anything. -/
theorem ReadBack.cons (h : token.Plain) (hnumber : ∀ n, token ≠ number n) (hts : ReadBack ts) :
    ReadBack (token :: ts) := by
  intro rest hrest
  rw [List.flatMap_cons, List.append_assoc, ofText?_render h fun n hn => absurd hn (hnumber n),
    hts rest hrest, Option.map_map]
  rfl

/-- **Before a comma or a closing bracket** any token may stand. -/
theorem ReadBack.append_cons (hts : ReadBack ts) (hus : ReadBack (token :: us))
    (htoken : token ∈ [comma, rightBracket, rightBrace]) : ReadBack (ts ++ token :: us) := by
  intro rest hrest
  have hends : Text.EndsNumber ((token :: us).flatMap render ++ rest) := by
    intro c hc
    fin_cases htoken <;> obtain rfl := Option.some.inj hc <;> decide
  rw [List.flatMap_append, List.append_assoc, hts _ hends, hus rest hrest, Option.map_map]
  refine congrArg (Option.map · _) (funext fun vs => ?_)
  exact (List.append_assoc ts (token :: us) vs).symm

/-- The tokens of a whole text. -/
theorem ReadBack.ofText?_flatMap_render (h : ReadBack ts) :
    ofText? (ts.flatMap render) = some ts := by
  have hnil : Text.EndsNumber [] := nofun
  have hts := h [] hnil
  rwa [List.append_nil, ofText?, Option.map_some, List.append_nil] at hts

end JsonToken

end EditorCore
