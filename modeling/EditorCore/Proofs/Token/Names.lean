import EditorCore.Proofs.Text.Search
import EditorCore.Proofs.Token.Prefix

/-!
# The lexemes of a qualified name

A **qualified name** is one upper-case name or several, with dots between them,
and it may end with a lower-case one. The lexer reads it segment by segment
(`Lexeme.ofSource_name`): a name goes on as long as it can, so it ends at the
dot after it or where the qualified name does; and a dot is an operator of its
own, since the name after it starts with no symbol. A lower-case name that is a
reserved word is none, although it may start like one.

What follows the qualified name is arbitrary but for its first character, which
must not go on with the name.
-/

namespace EditorCore

/-! ## Characters of names -/

section

variable {c : Char}

theorem isNameChar_of_isUpper (hc : c.isUpper) : isNameChar c := by
  simp [isNameChar, Char.isAlphanum, Char.isAlpha, hc]

theorem isNameChar_of_isLowerStart (hc : isLowerStart c) : isNameChar c := by
  rw [isLowerStart, Bool.or_eq_true] at hc
  rcases hc with hc | hc <;> simp [isNameChar, Char.isAlphanum, Char.isAlpha, hc]

/-- No blank continues a name. -/
theorem isSpace_of_isNameChar (hc : isNameChar c) : isSpace c = false := by
  rw [Bool.eq_false_iff]
  intro hspace
  simp only [isSpace, Bool.or_eq_true, beq_iff_eq] at hspace
  rcases hspace with ((rfl | rfl) | rfl) | rfl <;> exact absurd hc (by decide)

/-- No symbol continues a name. -/
theorem isSymbol_of_isNameChar (hc : isNameChar c) : isSymbol c = false := by
  rw [Bool.eq_false_iff]
  intro hsymbol
  rw [isSymbol, List.contains_iff_mem] at hsymbol
  fin_cases hsymbol <;> exact absurd hc (by decide)

/-- No capital letter starts a lower-case name. -/
theorem isLowerStart_of_isUpper (hc : c.isUpper) : isLowerStart c = false := by
  rw [Bool.eq_false_iff]
  intro hlower
  rw [isLowerStart, Bool.or_eq_true, beq_iff_eq] at hlower
  rcases hlower with hlower | rfl
  · simp only [Char.isUpper, Char.isLower, Bool.and_eq_true, decide_eq_true_eq] at hc hlower
    exact absurd (UInt32.le_trans hlower.1 hc.2) (by decide)
  · exact absurd hc (by decide)

/-- Names are ASCII. -/
theorem toNat_lt_of_isNameChar (hc : isNameChar c) : c.toNat < 128 := by
  suffices hle : c.toNat ≤ 'z'.toNat from Nat.lt_of_le_of_lt hle (by decide)
  simp only [isNameChar, Char.isAlphanum, Char.isAlpha, Char.isUpper, Char.isLower, Char.isDigit,
    Bool.or_eq_true, Bool.and_eq_true, decide_eq_true_eq, beq_iff_eq] at hc
  rcases hc with ((hc | hc) | hc) | rfl
  · exact (UInt32.le_iff_toNat_le.1 hc.2).trans (by decide)
  · exact UInt32.le_iff_toNat_le.1 hc.2
  · exact (UInt32.le_iff_toNat_le.1 hc.2).trans (by decide)
  · decide

/-- A character that continues a name takes one column. -/
theorem units_of_isNameChar (hc : isNameChar c) : units c = 1 :=
  if_pos ((toNat_lt_of_isNameChar hc).trans (by decide))

end

/-! ## Names -/

/-- **An upper-case name**: a capital letter and then letters, digits and
underscores. -/
structure UpperName where
  first : Char
  rest : Text
  isUpper_first : first.isUpper
  isNameChar_rest : ∀ c ∈ rest, isNameChar c

/-- **A lower-case name**: a small letter or an underscore, and then letters,
digits and underscores, but no reserved word. -/
structure LowerName where
  first : Char
  rest : Text
  isLowerStart_first : isLowerStart first
  isNameChar_rest : ∀ c ∈ rest, isNameChar c
  not_reserved : first :: rest ∉ reservedWords.map Prod.fst

namespace UpperName

/-- The characters of a name. -/
def text (u : UpperName) : Text := u.first :: u.rest

/-- The lexeme of a name. -/
def lexeme (u : UpperName) : Lexeme := ⟨.upperIdent, u.text⟩

end UpperName

namespace LowerName

/-- The characters of a name. -/
def text (l : LowerName) : Text := l.first :: l.rest

/-- The lexeme of a name. -/
def lexeme (l : LowerName) : Lexeme := ⟨.lowerIdent, l.text⟩

end LowerName

/-- **A qualified name.** -/
inductive QualifiedName
  /-- `U` -/
  | upper (u : UpperName)
  /-- `U.l` -/
  | lower (u : UpperName) (l : LowerName)
  /-- `U.` before a qualified name -/
  | within (u : UpperName) (q : QualifiedName)

/-- The lexeme of a dot between names. -/
def Lexeme.dot : Lexeme := ⟨.operator, ['.']⟩

namespace QualifiedName

/-- The characters of a qualified name. -/
def text : QualifiedName → Text
  | upper u => u.text
  | lower u l => u.text ++ '.' :: l.text
  | within u q => u.text ++ '.' :: q.text

/-- The lexemes of a qualified name. -/
def lexemes : QualifiedName → List Lexeme
  | upper u => [u.lexeme]
  | lower u l => [u.lexeme, .dot, l.lexeme]
  | within u q => u.lexeme :: .dot :: q.lexemes

theorem texts_lexemes (q : QualifiedName) : Lexeme.texts q.lexemes = q.text := by
  induction q with
  | upper u => exact List.append_nil u.text
  | lower u l =>
    rw [lexemes, Lexeme.texts_cons, Lexeme.texts_cons, Lexeme.texts_cons, Lexeme.texts_nil,
      List.append_nil]
    rfl
  | within u q ih =>
    rw [lexemes, Lexeme.texts_cons, Lexeme.texts_cons, ih]
    rfl

/-- No lexeme of a qualified name is empty. -/
theorem text_ne_nil (q : QualifiedName) : ∀ l ∈ q.lexemes, l.text ≠ [] := by
  induction q with
  | upper u => exact List.forall_mem_singleton.2 (List.cons_ne_nil _ _)
  | lower u l =>
    exact List.forall_mem_cons.2 ⟨List.cons_ne_nil _ _, List.forall_mem_cons.2
      ⟨List.cons_ne_nil _ _, List.forall_mem_singleton.2 (List.cons_ne_nil _ _)⟩⟩
  | within u q ih =>
    exact List.forall_mem_cons.2 ⟨List.cons_ne_nil _ _, List.forall_mem_cons.2
      ⟨List.cons_ne_nil _ _, ih⟩⟩

/-- A qualified name starts with a capital letter. -/
theorem exists_text_eq_cons (q : QualifiedName) : ∃ c t, q.text = c :: t ∧ c.isUpper := by
  cases q with
  | upper u => exact ⟨u.first, u.rest, rfl, u.isUpper_first⟩
  | lower u l => exact ⟨u.first, _, rfl, u.isUpper_first⟩
  | within u q => exact ⟨u.first, _, rfl, u.isUpper_first⟩

/-- A qualified name is made of names and dots. -/
theorem forall_mem_text (q : QualifiedName) : ∀ c ∈ q.text, isNameChar c ∨ c = '.' := by
  have hupper (u : UpperName) : ∀ c ∈ u.text, isNameChar c ∨ c = '.' :=
    List.forall_mem_cons.2 ⟨.inl (isNameChar_of_isUpper u.isUpper_first),
      fun c hc => .inl (u.isNameChar_rest c hc)⟩
  have hlower (l : LowerName) : ∀ c ∈ l.text, isNameChar c ∨ c = '.' :=
    List.forall_mem_cons.2 ⟨.inl (isNameChar_of_isLowerStart l.isLowerStart_first),
      fun c hc => .inl (l.isNameChar_rest c hc)⟩
  induction q with
  | upper u => exact hupper u
  | lower u l =>
    exact List.forall_mem_append.2 ⟨hupper u, List.forall_mem_cons.2 ⟨.inr rfl, hlower l⟩⟩
  | within u q ih =>
    exact List.forall_mem_append.2 ⟨hupper u, List.forall_mem_cons.2 ⟨.inr rfl, ih⟩⟩

theorem width_text (q : QualifiedName) : q.text.width = q.text.length := by
  refine Text.width_eq_length fun c hc => ?_
  rcases q.forall_mem_text c hc with hname | rfl
  · exact units_of_isNameChar hname
  · rfl

end QualifiedName

namespace Text

/-- **A text does not go on with a name**: it is empty, or it starts with a
character that neither continues a name nor is a dot. -/
def EndsName (t : Text) : Prop := ∀ c ∈ t.head?, isNameChar c = false ∧ c ≠ '.'

/-- A blank, a line feed, a closing parenthesis or a comma ends a name. -/
theorem endsName_of_mem {t : Text} (h : ∀ c ∈ t.head?, c ∈ [' ', '\n', ')', ',']) : t.EndsName := by
  intro c hc
  have hmem := h c hc
  fin_cases hmem <;> decide

end Text

namespace Scan

variable {c : Char} {s t : Text}

/-! ## Single tokens -/

/-- A run goes on to where its characters end. -/
theorem run_append_of_head? {p : Char → Bool} (hs : ∀ c ∈ s, p c)
    (ht : ∀ c ∈ t.head?, p c = false) : run p (s ++ t) = s.length := by
  rw [run, Text.takeWhile_append_of_head? hs ht]

theorem token_space (hc : isSpace c) (t : Text) : token c t = (.whitespace, run isSpace t) :=
  if_pos hc

theorem token_lower (hc : isLowerStart c) (t : Text) :
    token c t = (wordKind (c :: t.takeWhile isNameChar), run isNameChar t) := by
  have hname := isNameChar_of_isLowerStart hc
  unfold token
  rw [isSpace_of_isNameChar hname, isSymbol_of_isNameChar hname, hc]
  rfl

theorem token_upper (hc : c.isUpper) (t : Text) : token c t = (.upperIdent, run isNameChar t) := by
  have hname := isNameChar_of_isUpper hc
  unfold token
  rw [isSpace_of_isNameChar hname, isSymbol_of_isNameChar hname, isLowerStart_of_isUpper hc, hc]
  rfl

/-- A dot that no symbol follows is an operator of its own. -/
theorem token_dot (ht : ∀ c ∈ t.head?, isSymbol c = false) : token '.' t = (.operator, 0) :=
  congrArg (Prod.mk TokenKind.operator) (run_append_of_head? (s := []) nofun ht)

end Scan

namespace Lexeme

variable {s t : Text}

/-! ## The lexemes of a name -/

/-- **A token and what follows it**, where no number could be parted. -/
theorem ofSource_cons_append {c : Char} {kind : TokenKind} (hkind : kind ≠ .number)
    (h : Scan.token c (s ++ t) = (kind, s.length)) :
    ofSource (c :: (s ++ t)) = ⟨kind, c :: s⟩ :: ofSource t := by
  rw [ofSource_cons, h, List.take_left, List.drop_left, splitPoint_of_ne hkind]
  rfl

/-- Blanks before anything else are one lexeme, if there are any. -/
theorem ofSource_blanks (hs : ∀ c ∈ s, isSpace c) (ht : ∀ c ∈ t.head?, isSpace c = false) :
    ofSource (s ++ t) = piece .whitespace s ++ ofSource t := by
  cases s with
  | nil => rfl
  | cons c s =>
    obtain ⟨hc, hs⟩ := List.forall_mem_cons.1 hs
    refine ofSource_cons_append nofun ?_
    rw [Scan.token_space hc, Scan.run_append_of_head? hs ht]

/-- A word that starts in lower case is one lexeme, reserved or not. -/
theorem ofSource_word {c : Char} (hc : isLowerStart c) (hs : ∀ d ∈ s, isNameChar d)
    (ht : ∀ d ∈ t.head?, isNameChar d = false) :
    ofSource (c :: (s ++ t)) = ⟨wordKind (c :: s), c :: s⟩ :: ofSource t := by
  refine ofSource_cons_append (Scan.wordKind_ne_number _) ?_
  rw [Scan.token_lower hc, Scan.run_append_of_head? hs ht, Text.takeWhile_append_of_head? hs ht]

theorem ofSource_upper (u : UpperName) (ht : ∀ c ∈ t.head?, isNameChar c = false) :
    ofSource (u.text ++ t) = u.lexeme :: ofSource t := by
  refine ofSource_cons_append nofun ?_
  rw [Scan.token_upper u.isUpper_first, Scan.run_append_of_head? u.isNameChar_rest ht]

/-- A name that is no reserved word is an identifier. -/
theorem wordKind_text (l : LowerName) : wordKind l.text = .lowerIdent := by
  have hlookup : reservedWords.lookup l.text = none := by
    rw [List.lookup_eq_none_iff]
    intro word hword
    rw [bne_iff_ne]
    intro heq
    exact l.not_reserved (List.mem_map.2 ⟨word, hword, heq.symm⟩)
  rw [wordKind, hlookup, Option.getD_none]

theorem ofSource_lower (l : LowerName) (ht : ∀ c ∈ t.head?, isNameChar c = false) :
    ofSource (l.text ++ t) = l.lexeme :: ofSource t := by
  have hword := ofSource_word l.isLowerStart_first l.isNameChar_rest ht
  rwa [show wordKind (l.first :: l.rest) = .lowerIdent from wordKind_text l] at hword

theorem ofSource_dot (ht : ∀ c ∈ t.head?, isSymbol c = false) :
    ofSource ('.' :: t) = dot :: ofSource t :=
  ofSource_cons_append (s := []) nofun (Scan.token_dot ht)

/-- **The lexemes of a qualified name**, whatever follows it. -/
theorem ofSource_name (q : QualifiedName) (ht : t.EndsName) :
    ofSource (q.text ++ t) = q.lexemes ++ ofSource t := by
  have hend : ∀ c ∈ t.head?, isNameChar c = false := fun c hc => (ht c hc).1
  -- after a dot comes a letter or an underscore, and before it no name goes on
  have hdot (u : UpperName) (r : Text) (hr : ∃ c r', r = c :: r' ∧ isNameChar c) :
      ofSource (u.text ++ '.' :: r) = u.lexeme :: dot :: ofSource r := by
    obtain ⟨c, r, rfl, hc⟩ := hr
    rw [ofSource_upper u (by rintro d hd; obtain rfl := Option.some.inj hd; rfl), ofSource_dot]
    rintro d hd
    obtain rfl := Option.some.inj hd
    exact isSymbol_of_isNameChar hc
  induction q with
  | upper u => exact ofSource_upper u hend
  | lower u l =>
    rw [QualifiedName.text, QualifiedName.lexemes, List.append_assoc, List.cons_append, hdot u,
      ofSource_lower l hend]
    · rfl
    · exact ⟨l.first, _, rfl, isNameChar_of_isLowerStart l.isLowerStart_first⟩
  | within u q ih =>
    obtain ⟨c, r, hq, hc⟩ := q.exists_text_eq_cons
    rw [QualifiedName.text, QualifiedName.lexemes, List.append_assoc, List.cons_append, hdot u, ih]
    · rfl
    · exact ⟨c, _, congrArg (· ++ t) hq, isNameChar_of_isUpper hc⟩

end Lexeme

end EditorCore
