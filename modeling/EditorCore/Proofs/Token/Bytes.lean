import EditorCore.Proofs.Text.Columns
import EditorCore.Token.Scan

/-!
# Scanning bytes

A buffer comes as UTF-8, and the two rules whose tokens nest or skip do not
read characters at all: they look for their delimiters byte by byte, and a
backslash in a triple-quoted string has them step over the next **byte**,
which may be the first of several or not there at all. Counted in bytes, they
still stop where the rules on characters stop (`ByteScan.blockComment_utf8`,
`ByteScan.tripleQuoted_utf8`).

The reason is that delimiters are ASCII. A byte of a longer character is none
of theirs (`utf8EncodeChar_eq_or_forall`), so from wherever a step has led, a
scan runs on to the next character without a match.
-/

namespace EditorCore

/-! ## Characters as bytes -/

/-- **A character is one byte of its own number, or all its bytes are from the
upper half.** -/
theorem utf8EncodeChar_eq_or_forall (c : Char) :
    String.utf8EncodeChar c = [c.toUInt8] ∧ c.toNat < 128
      ∨ 128 ≤ c.toNat ∧ ∀ b ∈ String.utf8EncodeChar c, 128 ≤ b.toNat := by
  have hnat : c.toNat = c.val.toNat := rfl
  unfold String.utf8EncodeChar
  dsimp only
  split_ifs with h1 h2 h3
  · exact .inl ⟨rfl, by omega⟩
  all_goals
    refine .inr ⟨by omega, ?_⟩
    simp only [List.forall_mem_cons, UInt8.toNat_ofNat', List.not_mem_nil, false_implies,
      implies_true, and_true]
    omega

/-- The number of a byte of a character is below 128 only for that byte's own
character. -/
theorem toUInt8_inj {c d : Char} (hc : c.toNat < 128) (hd : d.toNat < 128)
    (h : c.toUInt8 = d.toUInt8) : c = d := by
  have hbyte := congrArg UInt8.toNat h
  rw [Char.toUInt8, Char.toUInt8, UInt32.toNat_toUInt8, UInt32.toNat_toUInt8] at hbyte
  refine Char.toNat_inj.1 ?_
  change c.val.toNat < 128 at hc
  change d.val.toNat < 128 at hd
  show c.val.toNat = d.val.toNat
  omega

namespace Text

variable {t : Text} {c : Char}

/-- **The bytes of a text.** -/
def utf8 (t : Text) : List UInt8 := t.flatMap String.utf8EncodeChar

@[simp] theorem utf8_nil : utf8 [] = [] := rfl

theorem utf8_cons (c : Char) (t : Text) : utf8 (c :: t) = String.utf8EncodeChar c ++ utf8 t :=
  List.flatMap_cons

theorem length_utf8 (t : Text) : (utf8 t).length = byteSize t := by
  induction t with
  | nil => rfl
  | cons c t ih => rw [utf8_cons, List.length_append, String.length_utf8EncodeChar, ih,
      byteSize_cons]

/-- An ASCII character is one byte. -/
theorem utf8_cons_of_lt (h : c.toNat < 128) (t : Text) : utf8 (c :: t) = c.toUInt8 :: utf8 t := by
  rcases utf8EncodeChar_eq_or_forall c with ⟨hbyte, -⟩ | ⟨hge, -⟩
  · rw [utf8_cons, hbyte, List.singleton_append]
  · omega

/-- **A text starts with the byte of an ASCII character when it starts with that
character**, and goes on with the bytes after it. -/
theorem utf8_eq_cons {bs : List UInt8} (hc : c.toNat < 128) (h : utf8 t = c.toUInt8 :: bs) :
    ∃ u, t = c :: u ∧ utf8 u = bs := by
  cases t with
  | nil => exact absurd h nofun
  | cons d u =>
    rcases utf8EncodeChar_eq_or_forall d with ⟨-, hd⟩ | ⟨-, hbytes⟩
    · rw [utf8_cons_of_lt hd, List.cons.injEq] at h
      obtain rfl := toUInt8_inj hd hc h.1
      exact ⟨u, rfl, h.2⟩
    · -- the first byte is one of the upper half
      exfalso
      have hmem : c.toUInt8 ∈ String.utf8EncodeChar d := by
        obtain ⟨b, bs', hd⟩ := List.exists_cons_of_ne_nil (String.utf8EncodeChar_ne_nil (c := d))
        rw [utf8_cons, hd, List.cons_append, List.cons.injEq] at h
        rw [hd, h.1]
        exact List.mem_cons_self
      have hge := hbytes _ hmem
      rw [Char.toUInt8, UInt32.toNat_toUInt8] at hge
      change c.val.toNat < 128 at hc
      omega

end Text

namespace ByteScan

open Text

variable {bs : List UInt8} {b : UInt8}

/-! ## Block comments -/

/-- **The rest of a block comment, in bytes**, inside `depth` further ones. -/
def blockComment (depth : Nat) : List UInt8 → Nat
  | [] => 0
  | [_] => 1
  | a :: b :: bs =>
    if a = '{'.toUInt8 ∧ b = '-'.toUInt8 then blockComment (depth + 1) bs + 2
    else if a = '-'.toUInt8 ∧ b = '}'.toUInt8 then
      if depth = 0 then 2 else blockComment (depth - 1) bs + 2
    else blockComment depth (b :: bs) + 1

/-- A byte that starts no delimiter is stepped over. -/
theorem blockComment_cons (depth : Nat)
    (hopen : ¬ (b = '{'.toUInt8 ∧ bs.head? = some '-'.toUInt8))
    (hclose : ¬ (b = '-'.toUInt8 ∧ bs.head? = some '}'.toUInt8)) :
    blockComment depth (b :: bs) = blockComment depth bs + 1 := by
  cases bs with
  | nil => rfl
  | cons a bs =>
    rw [List.head?_cons, Option.some_inj] at hopen hclose
    rw [blockComment, if_neg hopen, if_neg hclose]

/-- Bytes of the upper half are stepped over. -/
theorem blockComment_append (depth : Nat) {cs : List UInt8} (h : ∀ b ∈ cs, 128 ≤ b.toNat)
    (bs : List UInt8) : blockComment depth (cs ++ bs) = blockComment depth bs + cs.length := by
  induction cs with
  | nil => rfl
  | cons b cs ih =>
    obtain ⟨hb, hcs⟩ := List.forall_mem_cons.1 h
    have hne : ∀ c : UInt8, c.toNat < 128 → b ≠ c := fun c hc hbc => by
      rw [hbc] at hb
      omega
    rw [List.cons_append, blockComment_cons depth (fun h => hne _ (by decide) h.1)
      (fun h => hne _ (by decide) h.1), ih hcs, List.length_cons, Nat.add_assoc]

/-- **In bytes, a block comment ends where it does in characters.** -/
theorem blockComment_utf8 (depth : Nat) (t : Text) :
    blockComment depth t.utf8 = byteSize (t.take (Scan.blockComment depth t)) := by
  fun_induction Scan.blockComment depth t with
  | case1 depth t ih =>
    rw [utf8_cons_of_lt (by decide), utf8_cons_of_lt (by decide), blockComment,
      if_pos ⟨rfl, rfl⟩, ih]
    show _ = byteSize ('{' :: '-' :: t.take _)
    rw [byteSize_cons, byteSize_cons, ← Nat.add_assoc, Nat.add_comm]
    rfl
  | case2 t =>
    rw [utf8_cons_of_lt (by decide), utf8_cons_of_lt (by decide), blockComment,
      if_neg (by decide), if_pos ⟨rfl, rfl⟩]
    rfl
  | case3 t depth ih =>
    rw [utf8_cons_of_lt (by decide), utf8_cons_of_lt (by decide), blockComment,
      if_neg (by decide), if_pos ⟨rfl, rfl⟩, if_neg (Nat.succ_ne_zero depth),
      Nat.succ_sub_one, ih]
    show _ = byteSize ('-' :: '}' :: t.take _)
    rw [byteSize_cons, byteSize_cons, ← Nat.add_assoc, Nat.add_comm]
    rfl
  | case4 depth c t hopen hclose ih =>
    rw [List.take_succ_cons, byteSize_cons, ← ih]
    rcases utf8EncodeChar_eq_or_forall c with ⟨hbyte, hlt⟩ | ⟨-, hbytes⟩
    · -- where the next byte would make a delimiter, so would the next character
      have hnext : ∀ d e : Char, d.toNat < 128 → e.toNat < 128 →
          c.toUInt8 = d.toUInt8 ∧ (utf8 t).head? = some e.toUInt8 → ∃ u, c :: t = d :: e :: u := by
        rintro d e hd he ⟨hcd, hhead⟩
        obtain ⟨bs, hbs⟩ := List.head?_eq_some_iff.1 hhead
        obtain ⟨u, rfl, -⟩ := utf8_eq_cons he hbs
        exact ⟨u, by rw [toUInt8_inj hlt hd hcd]⟩
      rw [utf8_cons_of_lt hlt, blockComment_cons depth, Nat.add_comm,
        ← String.length_utf8EncodeChar, hbyte]
      · rfl
      · intro h
        obtain ⟨u, hu⟩ := hnext '{' '-' (by decide) (by decide) h
        rw [List.cons.injEq] at hu
        exact hopen u hu.1 hu.2
      · intro h
        obtain ⟨u, hu⟩ := hnext '-' '}' (by decide) (by decide) h
        rw [List.cons.injEq] at hu
        exact hclose u hu.1 hu.2
    · rw [utf8_cons, blockComment_append depth hbytes, String.length_utf8EncodeChar, Nat.add_comm]
  | case5 depth => rfl

/-! ## Triple-quoted strings -/

/-- **The rest of a triple-quoted string, in bytes.** A backslash takes the byte
after it along, if there is one. -/
def tripleQuoted : List UInt8 → Option Nat
  | [] => none
  | [_] => none
  | a :: b :: bs =>
    if a = '\\'.toUInt8 then (tripleQuoted bs).map (· + 2)
    else if a = '"'.toUInt8 ∧ b = '"'.toUInt8 ∧ bs.head? = some '"'.toUInt8 then some 3
    else (tripleQuoted (b :: bs)).map (· + 1)

/-- A byte that is neither a backslash nor the first of three quotes is stepped
over. -/
theorem tripleQuoted_cons (hskip : b ≠ '\\'.toUInt8)
    (hclose : ∀ cs, b :: bs ≠ '"'.toUInt8 :: '"'.toUInt8 :: '"'.toUInt8 :: cs) :
    tripleQuoted (b :: bs) = (tripleQuoted bs).map (· + 1) := by
  cases bs with
  | nil => rfl
  | cons a bs =>
    rw [tripleQuoted, if_neg hskip, if_neg]
    rintro ⟨rfl, rfl, hhead⟩
    obtain ⟨cs, rfl⟩ := List.head?_eq_some_iff.1 hhead
    exact hclose cs rfl

/-- Bytes of the upper half are stepped over. -/
theorem tripleQuoted_append {cs : List UInt8} (h : ∀ b ∈ cs, 128 ≤ b.toNat) (bs : List UInt8) :
    tripleQuoted (cs ++ bs) = (tripleQuoted bs).map (· + cs.length) := by
  induction cs with
  | nil => simp
  | cons b cs ih =>
    obtain ⟨hb, hcs⟩ := List.forall_mem_cons.1 h
    have hne : ∀ c : UInt8, c.toNat < 128 → b ≠ c := fun c hc hbc => by
      rw [hbc] at hb
      omega
    rw [List.cons_append, tripleQuoted_cons (hne _ (by decide))
      (fun _ hcons => hne _ (by decide) (List.cons.inj hcons).1), ih hcs, Option.map_map,
      List.length_cons]
    rfl

/-- **A backslash leads into the middle of a character** when that has several
bytes, and the scan runs on to its end. -/
theorem tripleQuoted_backslash (c : Char) (bs : List UInt8) :
    tripleQuoted ('\\'.toUInt8 :: (String.utf8EncodeChar c ++ bs))
      = (tripleQuoted bs).map (· + (1 + c.utf8Size)) := by
  obtain ⟨b, cs, hcs⟩ := List.exists_cons_of_ne_nil (String.utf8EncodeChar_ne_nil (c := c))
  have hlen : cs.length + 1 = c.utf8Size := by
    rw [← String.length_utf8EncodeChar, hcs, List.length_cons]
  have hrest : tripleQuoted (cs ++ bs) = (tripleQuoted bs).map (· + cs.length) := by
    refine tripleQuoted_append (fun b' hb' => ?_) bs
    rcases utf8EncodeChar_eq_or_forall c with ⟨hbyte, -⟩ | ⟨-, hbytes⟩
    · rw [hcs, List.cons.injEq] at hbyte
      exact absurd (hbyte.2 ▸ hb') List.not_mem_nil
    · exact hbytes b' (hcs ▸ List.mem_cons_of_mem b hb')
  rw [hcs, List.cons_append, tripleQuoted, if_pos rfl, hrest, Option.map_map]
  refine Option.map_congr fun n _ => ?_
  show n + cs.length + 2 = n + (1 + c.utf8Size)
  omega

/-- **In bytes, a triple-quoted string ends where it does in characters.** -/
theorem tripleQuoted_utf8 (t : Text) :
    tripleQuoted t.utf8 = (Scan.tripleQuoted t).map fun n => byteSize (t.take n) := by
  fun_induction Scan.tripleQuoted t with
  | case1 c t ih =>
    rw [utf8_cons_of_lt (by decide), utf8_cons, tripleQuoted_backslash, ih, Option.map_map,
      Option.map_map]
    refine Option.map_congr fun n _ => ?_
    show byteSize (t.take n) + (1 + c.utf8Size) = byteSize ('\\' :: c :: t.take n)
    rw [byteSize_cons, byteSize_cons, Nat.add_comm, Nat.add_assoc]
    rfl
  | case2 t =>
    rw [utf8_cons_of_lt (by decide), utf8_cons_of_lt (by decide), utf8_cons_of_lt (by decide),
      tripleQuoted, if_neg (by decide), if_pos ⟨rfl, rfl, rfl⟩]
    rfl
  | case3 c t hskip hclose ih =>
    have hstep : tripleQuoted (utf8 (c :: t)) = (tripleQuoted (utf8 t)).map (· + c.utf8Size) := by
      rcases utf8EncodeChar_eq_or_forall c with ⟨hbyte, hlt⟩ | ⟨-, hbytes⟩
      · rw [utf8_cons_of_lt hlt, ← String.length_utf8EncodeChar, hbyte]
        by_cases hc : c = '\\'
        · -- a backslash that ends the text
          subst hc
          cases t with
          | nil => rfl
          | cons d u => exact absurd rfl (hskip d u rfl)
        · refine tripleQuoted_cons (fun h => hc (toUInt8_inj hlt (by decide) h)) fun cs hcs => ?_
          rw [← utf8_cons_of_lt hlt] at hcs
          obtain ⟨u, hu, hu'⟩ := utf8_eq_cons (by decide) hcs
          obtain ⟨v, rfl, hv'⟩ := utf8_eq_cons (by decide) hu'
          obtain ⟨w, rfl, -⟩ := utf8_eq_cons (by decide) hv'
          rw [List.cons.injEq] at hu
          exact hclose w hu.1 hu.2
      · rw [utf8_cons, tripleQuoted_append hbytes, String.length_utf8EncodeChar]
    rw [hstep, ih, Option.map_map, Option.map_map]
    refine Option.map_congr fun n _ => ?_
    show byteSize (t.take n) + c.utf8Size = byteSize (c :: t.take n)
    rw [byteSize_cons, Nat.add_comm]
  | case4 => rfl

end ByteScan

end EditorCore
