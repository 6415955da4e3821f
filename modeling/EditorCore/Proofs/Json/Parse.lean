import EditorCore.Json.Parse
import EditorCore.Proofs.Json.Token

/-!
# Reading JSON values back

A value that is made of words, texts and truth values is read back from the text
that writes it (`Json.Simple.ofText?_render`). Both steps of reading are told
with what follows: the lexer hands over the tokens of the value and goes on
behind them, and the parser, wherever a value is expected, has the value after
those tokens, with the same arrays and objects open. Each is one induction on
the value, with one on the items or members inside.

Nesting is counted along (`Json.Simple`), since messages of several kinds are
taken in only up to a depth; a word is far below what is too large to be taken
in.
-/

namespace EditorCore

namespace Json

/-- **A simple value**, of a depth: its numbers are words and its strings have
texts, and so have the keys of its objects. -/
inductive Simple : Nat → Json → Prop
  | null {depth : Nat} : Simple depth null
  | bool {depth : Nat} (b : Bool) : Simple depth (bool b)
  | word {depth : Nat} (n : UInt32) : Simple depth (word n)
  | text {depth : Nat} (t : Text) : Simple depth (text t)
  | array {depth : Nat} {items : List Json} (h : ∀ j ∈ items, Simple depth j) :
      Simple (depth + 1) (array items)
  | object {depth : Nat} {members : List (Option Text × Json)}
      (hkeys : ∀ m ∈ members, ∃ t, m.1 = some t) (h : ∀ m ∈ members, Simple depth m.2) :
      Simple (depth + 1) (object members)

variable {depth : Nat} {j : Json} {rest : Text}

/-- What is less deep is also deeper. -/
theorem Simple.mono {deeper : Nat} (h : Simple depth j) (hle : depth ≤ deeper) :
    Simple deeper j := by
  induction h generalizing deeper with
  | null => exact .null
  | bool b => exact .bool b
  | word n => exact .word n
  | text t => exact .text t
  | array h ih =>
    obtain ⟨deeper, rfl⟩ := Nat.exists_eq_succ_of_ne_zero (Nat.ne_zero_of_lt hle)
    exact .array fun j hj => ih j hj (Nat.le_of_succ_le_succ hle)
  | object hkeys h ih =>
    obtain ⟨deeper, rfl⟩ := Nat.exists_eq_succ_of_ne_zero (Nat.ne_zero_of_lt hle)
    exact .object hkeys fun m hm => ih m hm (Nat.le_of_succ_le_succ hle)

/-! ## Tokens -/

open JsonToken (ReadBack readBack_nil readBack_number)

/-- The tokens of items are read back when those of each are. -/
theorem readBack_itemTokens {items : List Json} (h : ∀ j ∈ items, ReadBack j.tokens) :
    ReadBack (itemTokens items) := by
  induction items with
  | nil => exact readBack_nil
  | cons j js ih =>
    obtain ⟨hj, hjs⟩ := List.forall_mem_cons.1 h
    cases js with
    | nil => exact hj
    | cons j' js => exact hj.append_cons ((ih hjs).cons trivial nofun) (by simp)

/-- The tokens of members are read back when those of each value are. -/
theorem readBack_memberTokens {members : List (Option Text × Json)}
    (hkeys : ∀ m ∈ members, ∃ t, m.1 = some t) (h : ∀ m ∈ members, ReadBack m.2.tokens) :
    ReadBack (memberTokens members) := by
  induction members with
  | nil => exact readBack_nil
  | cons m ms ih =>
    obtain ⟨hm, hms⟩ := List.forall_mem_cons.1 h
    obtain ⟨hkey, hkeys⟩ := List.forall_mem_cons.1 hkeys
    cases ms with
    | nil =>
      have hvalue : ReadBack (.colon :: m.2.tokens) := hm.cons trivial nofun
      exact hvalue.cons hkey nofun
    | cons m' ms =>
      have hnext : ReadBack (.comma :: memberTokens (m' :: ms)) := (ih hkeys hms).cons trivial nofun
      have hvalue : ReadBack (.colon :: (m.2.tokens ++ .comma :: memberTokens (m' :: ms))) :=
        (hm.append_cons hnext (by simp)).cons trivial nofun
      exact hvalue.cons hkey nofun

/-- **The tokens of a simple value are read back.** -/
theorem Simple.readBack_tokens (h : Simple depth j) : ReadBack j.tokens := by
  have hend (token : JsonToken) (hplain : token.Plain) (hnumber : ∀ n, token ≠ .number n) :
      ReadBack [token] := readBack_nil.cons hplain hnumber
  induction h with
  | null => exact hend .null trivial nofun
  | bool b => exact hend (.bool b) trivial nofun
  | word n => exact readBack_number n.toNat
  | text t => exact hend (.string (some t)) ⟨t, rfl⟩ nofun
  | array h ih =>
    have hitems := (readBack_itemTokens ih).append_cons (hend .rightBracket trivial nofun) (by simp)
    exact hitems.cons trivial nofun
  | object hkeys h ih =>
    have hmembers := (readBack_memberTokens hkeys ih).append_cons
      (hend .rightBrace trivial nofun) (by simp)
    exact hmembers.cons trivial nofun

/-! ## Values -/

/-- Takes tokens one after the other. -/
def run? (state : Expecting × List Frame) (tokens : List JsonToken) :
    Option (Expecting × List Frame) :=
  tokens.foldlM (fun (expecting, frames) token => step? frames expecting token) state

variable {frames : List Frame} {tokens : List JsonToken}

theorem run?_cons (expecting : Expecting) (token : JsonToken) :
    run? (expecting, frames) (token :: tokens)
      = (step? frames expecting token).bind (run? · tokens) := rfl

/-- **Tokens make a value** wherever one is expected, whatever follows them. -/
def Makes (tokens : List JsonToken) (j : Json) : Prop :=
  ∀ frames rest, run? (.value, frames) (tokens ++ rest) = run? (.after j, frames) rest

/-- No value starts with a closing bracket. -/
theorem exists_tokens_eq_cons (j : Json) :
    ∃ token tokens, j.tokens = token :: tokens ∧ token ≠ .rightBracket := by
  cases j with
  | null => exact ⟨_, _, rfl, nofun⟩
  | bool b => exact ⟨_, _, rfl, nofun⟩
  | number n => exact ⟨_, _, rfl, nofun⟩
  | string s => exact ⟨_, _, rfl, nofun⟩
  | array items => exact ⟨_, _, rfl, nofun⟩
  | object members => exact ⟨_, _, rfl, nofun⟩

/-- The first item of an array is read as the ones after it are. -/
theorem run?_firstItem (j : Json) (rest : List JsonToken) :
    run? (.firstItem, frames) (j.tokens ++ rest)
      = run? (.value, .array [] :: frames) (j.tokens ++ rest) := by
  obtain ⟨token, tokens, htokens, hne⟩ := j.exists_tokens_eq_cons
  have hstep : step? frames .firstItem token = step? (.array [] :: frames) .value token := by
    cases token with
    | rightBracket => exact absurd rfl hne
    | _ => rfl
  rw [htokens, List.cons_append, run?_cons, run?_cons, hstep]

/-- **Items are read** up to the bracket that closes the array. -/
theorem run?_itemTokens {js before : List Json} {rest : List JsonToken}
    (h : ∀ i ∈ j :: js, Makes i.tokens i) :
    run? (.value, .array before :: frames) (itemTokens (j :: js) ++ .rightBracket :: rest)
      = run? (.after (.array (before ++ j :: js)), frames) rest := by
  induction js generalizing j before with
  | nil =>
    have hj := h j List.mem_cons_self
    rw [itemTokens, hj, run?_cons]
    rfl
  | cons j' js ih =>
    obtain ⟨hj, hjs⟩ := List.forall_mem_cons.1 h
    rw [itemTokens.eq_3 _ _ (List.cons_ne_nil j' js), List.append_assoc, hj, List.cons_append,
      run?_cons]
    show run? (.value, .array (before ++ [j]) :: frames) _ = _
    rw [ih hjs, List.append_assoc]
    rfl

/-- **Members are read** up to the brace that closes the object. -/
theorem run?_memberTokens {m : Option Text × Json} {ms before : List (Option Text × Json)}
    {rest : List JsonToken} (h : ∀ i ∈ m :: ms, Makes i.2.tokens i.2) :
    run? (.key before, frames) (memberTokens (m :: ms) ++ .rightBrace :: rest)
      = run? (.after (.object (before ++ m :: ms)), frames) rest := by
  have hkey (tokens : List JsonToken) : run? (.key before, frames) (.string m.1 :: .colon :: tokens)
      = run? (.value, .object before m.1 :: frames) tokens := rfl
  induction ms generalizing m before with
  | nil =>
    have hm := h m List.mem_cons_self
    rw [memberTokens, List.cons_append, List.cons_append, hkey, hm, run?_cons]
    rfl
  | cons m' ms ih =>
    obtain ⟨hm, hms⟩ := List.forall_mem_cons.1 h
    rw [memberTokens.eq_3 _ _ _ (List.cons_ne_nil m' ms), List.cons_append, List.cons_append, hkey,
      List.append_assoc, hm, List.cons_append, run?_cons]
    show run? (.key (before ++ [m]), frames) _ = _
    rw [ih hms fun _ => rfl, List.append_assoc]
    rfl

/-- **A simple value is read** from its tokens wherever a value is expected. -/
theorem Simple.makes (h : Simple depth j) : Makes j.tokens j := by
  induction h with
  | null => exact fun _ _ => rfl
  | bool b => exact fun _ _ => rfl
  | word n => exact fun _ _ => rfl
  | text t => exact fun _ _ => rfl
  | @array depth items h ih =>
    intro frames rest
    rw [tokens, List.cons_append, run?_cons]
    show run? (.firstItem, frames) _ = _
    cases items with
    | nil => rfl
    | cons j js =>
      obtain ⟨more, hmore⟩ : ∃ more, itemTokens (j :: js) ++ [.rightBracket] ++ rest
          = j.tokens ++ more := by
        cases js with
        | nil => exact ⟨_, List.append_assoc _ _ _⟩
        | cons j' js => exact ⟨_, by simp only [itemTokens, List.append_assoc]; rfl⟩
      rw [hmore, run?_firstItem, ← hmore, List.append_assoc]
      exact run?_itemTokens ih
  | @object depth members hkeys h ih =>
    intro frames rest
    rw [tokens, List.cons_append, run?_cons]
    show run? (.firstKey, frames) _ = _
    cases members with
    | nil => rfl
    | cons m ms =>
      have hfirst : run? (.firstKey, frames) (memberTokens (m :: ms) ++ [.rightBrace] ++ rest)
          = run? (.key [], frames) (memberTokens (m :: ms) ++ [.rightBrace] ++ rest) := by
        cases ms <;> rfl
      rw [hfirst, List.append_assoc]
      exact run?_memberTokens ih

/-- **A simple value is read back from its text.** -/
theorem Simple.ofText?_render (h : Simple depth j) : ofText? j.render = some j := by
  have htokens := h.makes [] []
  rw [List.append_nil, run?] at htokens
  rw [ofText?, render, h.readBack_tokens.ofText?_flatMap_render, Option.bind_some, ofTokens?,
    htokens]
  rfl

end Json

/-! ## Taking in -/

namespace Numeral

/-- Reading further digits makes a number no smaller. -/
theorem le_ofDigitChars (ds : Text) (n : Nat) : n ≤ Nat.ofDigitChars 10 ds n := by
  rw [Nat.ofDigitChars_eq_ofDigitChars_zero]
  have hpow : 0 < 10 ^ ds.length := Nat.pow_pos (by decide)
  exact (Nat.le_mul_of_pos_left n hpow).trans (Nat.le_add_right _ _)

/-- The digits of a number that fits a word all fit it. -/
theorem leading_of_lt {ds : Text} {n : Nat} (h : Nat.ofDigitChars 10 ds n < UInt64.size) :
    leading n ds = (Nat.ofDigitChars 10 ds n, []) := by
  induction ds generalizing n with
  | nil => rfl
  | cons c ds ih =>
    have hcons : Nat.ofDigitChars 10 (c :: ds) n
        = Nat.ofDigitChars 10 ds (Nat.ofDigitChars 10 [c] n) := Nat.ofDigitChars_append (l := [c]) n
    rw [hcons] at h ⊢
    rw [leading, if_pos ((le_ofDigitChars ds _).trans_lt h), ih h]

/-- A number with no more digits than a float is one. -/
theorem nearestDouble_of_lt {n : Nat} (h : n < 2 ^ doubleDigits) : nearestDouble n = n := by
  have hunit : Nat.pow 2 (n.log2 + 1 - doubleDigits) = 1 := by
    have hlog : n.log2 + 1 - doubleDigits = 0 := by
      rcases Nat.eq_zero_or_pos n with rfl | hn
      · rfl
      · exact Nat.sub_eq_zero_of_le ((Nat.log2_lt hn.ne').2 h)
    rw [hlog]
  unfold nearestDouble
  rw [hunit]
  dsimp only
  rw [Nat.mod_one, Nat.div_one, if_neg (by simp), Nat.mul_one]

/-- **No word is too large to be taken in.** -/
theorem exceedsScaled_ofNat {n : Nat} (h : n < 2 ^ doubleDigits) :
    (ofNat n).exceedsScaled = false := by
  have hdigits : Nat.ofDigitChars 10 (Text.ofNat n) 0 = n := Nat.ofDigitChars_ten_toDigits
  have hword : Nat.ofDigitChars 10 (Text.ofNat n) 0 < UInt64.size := by
    rw [hdigits]
    exact h.trans (by decide)
  have hlimit : ¬ doubleLimit ≤ nearestDouble n * nearestDouble (Nat.pow 10 0) := by
    have hle : 2 ^ doubleDigits ≤ doubleLimit := by decide +kernel
    rw [nearestDouble_of_lt h, nearestDouble_of_lt (by decide)]
    exact Nat.not_le.2 ((Nat.mul_one n).symm ▸ h.trans_le hle)
  unfold exceedsScaled
  rw [show (ofNat n).whole = n from rfl, leading_of_lt hword, hdigits]
  show (if (decide (n = 0) || decide ((0 : Int) < 0)) = true then false
    else if (308 : Int) < 0 then true
    else decide (doubleLimit ≤ nearestDouble n * nearestDouble (Nat.pow 10 0))) = false
  rw [if_neg (show ¬ (308 : Int) < 0 by decide), decide_eq_false hlimit, ite_self]

end Numeral

namespace Json

variable {depth : Nat} {j : Json}

theorem itemsFit_iff {items : List Json} :
    itemsFit depth items ↔ ∀ j ∈ items, j.fits depth := by
  induction items with
  | nil => exact ⟨fun _ => nofun, fun _ => rfl⟩
  | cons j js ih => rw [itemsFit, Bool.and_eq_true, ih, List.forall_mem_cons]

theorem membersFit_iff {members : List (Option Text × Json)} :
    membersFit depth members ↔ ∀ m ∈ members, m.1.isSome ∧ m.2.fits depth := by
  induction members with
  | nil => exact ⟨fun _ => nofun, fun _ => rfl⟩
  | cons m ms ih => rw [membersFit, Bool.and_eq_true, Bool.and_eq_true, ih, List.forall_mem_cons]

/-- **A simple value can be taken in** where it is nested no deeper than is
allowed. -/
theorem Simple.fits {bound : Nat} (h : Simple depth j) (hle : depth ≤ bound) :
    j.fits bound := by
  induction h generalizing bound with
  | null => rfl
  | bool b => rfl
  | word n =>
    rw [Json.word, Json.fits, Numeral.exceedsScaled_ofNat (n.toNat_lt.trans (by decide))]
    rfl
  | text t => rfl
  | array h ih =>
    rw [Json.fits, Bool.and_eq_true, decide_eq_true_eq, itemsFit_iff]
    exact ⟨Nat.zero_lt_of_lt hle, fun j hj => ih j hj (Nat.le_sub_one_of_lt hle)⟩
  | object hkeys h ih =>
    rw [Json.fits, Bool.and_eq_true, decide_eq_true_eq, membersFit_iff]
    refine ⟨Nat.zero_lt_of_lt hle, fun m hm => ⟨?_, ih m hm (Nat.le_sub_one_of_lt hle)⟩⟩
    obtain ⟨t, ht⟩ := hkeys m hm
    rw [ht]
    rfl

end Json

end EditorCore
