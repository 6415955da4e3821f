import EditorCore.Proofs.Token.Names

/-!
# The shapes of words, numbers and operators

A first character tells by which rule a token is read, and the rules overlap beyond
it: reserved words are read as names are, line comments start like operators, a lone
zero starts like a hexadecimal number. What the rules come to is told here by the
texts of lexemes alone: a lexeme is an upper-case word, a lower-case one, a numeral
or an operator exactly where its text is spelled like one
(`Lexeme.WellShaped`), and a reserved word exactly where its text is that word.

Words and operators go on as long as they can, so what follows them does not go on
with them. The one exception is a point that was matched together with the digits
before it and parted from them afterwards: a symbol may follow it, and is an
operator of its own (`Lexeme.IsParted`).
-/

namespace EditorCore

/-! ## Spellings -/

namespace Text

/-- **A word** with such a first character: `[A-Za-z0-9_]*` follows it. -/
def IsWord (first : Char → Bool) (t : Text) : Prop :=
  ∃ c rest, t = c :: rest ∧ first c ∧ ∀ d ∈ rest, isNameChar d

/-- One digit or more. -/
def IsDigits (t : Text) : Prop := t ≠ [] ∧ ∀ d ∈ t, d.isDigit

/-- **A numeral.** -/
inductive IsNumeral : Text → Prop
  /-- `[0-9]+` -/
  | whole {ds : Text} : ds.IsDigits → IsNumeral ds
  /-- `[0-9]+\.[0-9]+` -/
  | fraction {ds fs : Text} : ds.IsDigits → fs.IsDigits → IsNumeral (ds ++ '.' :: fs)
  /-- `0x[0-9A-Fa-f]*` -/
  | hexadecimal {hs : Text} : (∀ d ∈ hs, isHexDigit d) → IsNumeral ('0' :: 'x' :: hs)

/-- **An operator**: a run of symbols that starts no line comment. -/
structure IsOperator (t : Text) : Prop where
  nonempty : t ≠ []
  symbols : ∀ c ∈ t, isSymbol c
  no_comment : ¬ ['-', '-'] <+: t

variable {t : Text} {first : Char → Bool} {c : Char}

/-- A word is told by its first character where names go on after it. -/
theorem isWord_cons (ht : ∀ d ∈ t, isNameChar d) : IsWord first (c :: t) ↔ first c := by
  constructor
  · rintro ⟨d, rest, heq, hd, -⟩
    obtain ⟨rfl, -⟩ := List.cons.inj heq
    exact hd
  · exact fun hc => ⟨c, t, rfl, hc, ht⟩

theorem IsDigits.getLast?_ne (h : t.IsDigits) : t.getLast? ≠ some '.' :=
  fun hlast => absurd (h.2 _ (List.mem_of_getLast? hlast)) (by decide)

/-- **No numeral ends in a point.** -/
theorem IsNumeral.getLast?_ne (h : t.IsNumeral) : t.getLast? ≠ some '.' := by
  cases h with
  | whole hds => exact hds.getLast?_ne
  | fraction hds hfs =>
    rw [List.getLast?_append_cons, List.getLast?_cons_of_ne_nil hfs.1]
    exact hfs.getLast?_ne
  | @hexadecimal hs hhs =>
    intro hlast
    rw [List.getLast?_cons_cons] at hlast
    rcases List.mem_cons.1 (List.mem_of_getLast? hlast) with hpoint | hpoint
    · exact absurd hpoint (by decide)
    · exact absurd (hhs _ hpoint) (by decide)

/-- A numeral starts with a digit. -/
theorem IsNumeral.isDigit (h : IsNumeral (c :: t)) : c.isDigit := by
  generalize hu : c :: t = u at h
  cases h with
  | whole hds => exact hds.2 c (hu ▸ List.mem_cons_self)
  | @fraction ds fs hds =>
    obtain ⟨d, ds, rfl⟩ := List.exists_cons_of_ne_nil hds.1
    obtain ⟨rfl, -⟩ := List.cons.inj hu
    exact hds.2 c List.mem_cons_self
  | hexadecimal =>
    obtain ⟨rfl, -⟩ := List.cons.inj hu
    rfl

end Text

/-! ## First characters -/

section

variable {c : Char}

/-- A symbol is no blank. -/
theorem isSpace_of_isSymbol (hc : isSymbol c) : isSpace c = false := by
  rw [isSymbol, List.contains_iff_mem] at hc
  fin_cases hc <;> rfl

theorem isNameChar_of_isDigit (hc : c.isDigit) : isNameChar c := by
  simp [isNameChar, Char.isAlphanum, hc]

/-- No digit is a capital letter. -/
theorem isUpper_of_isDigit (hc : c.isDigit) : c.isUpper = false := by
  rw [Bool.eq_false_iff]
  intro hupper
  simp only [Char.isDigit, Char.isUpper, Bool.and_eq_true, decide_eq_true_eq] at hc hupper
  exact absurd (UInt32.le_trans hupper.1 hc.2) (by decide)

/-- No digit starts a lower-case name. -/
theorem isLowerStart_of_isDigit (hc : c.isDigit) : isLowerStart c = false := by
  rw [Bool.eq_false_iff]
  intro hlower
  rw [isLowerStart, Bool.or_eq_true, beq_iff_eq] at hlower
  rcases hlower with hlower | rfl
  · simp only [Char.isDigit, Char.isLower, Bool.and_eq_true, decide_eq_true_eq] at hc hlower
    exact absurd (UInt32.le_trans hlower.1 hc.2) (by decide)
  · exact absurd hc (by decide)

end

namespace TokenKind

/-- The first characters of tokens of a kind, for kinds that are told by them. -/
def first : TokenKind → Char → Bool
  | upperIdent => Char.isUpper
  | number => Char.isDigit
  | operator => isSymbol
  | kind => fun c => if kind = lowerIdent ∨ kind.isKeyword then isLowerStart c else true

/-- A lower-case word starts as its kind says. -/
theorem first_of_isWord {kind : TokenKind} {c : Char} (h : kind = lowerIdent ∨ kind.isKeyword) :
    kind.first c = isLowerStart c := by
  cases kind <;> simp_all [first, isKeyword]

/-- The kinds of reserved words are the kinds the table of them gives. -/
theorem isKeyword_iff {kind : TokenKind} :
    kind.isKeyword ↔ ∃ entry ∈ reservedWords, entry.2 = kind := by
  cases kind <;> decide

end TokenKind

/-! ## Reserved words -/

theorem wordKind_isWord (word : Text) :
    wordKind word = .lowerIdent ∨ (wordKind word).isKeyword :=
  (wordKind_cases word).imp_right fun hmem => TokenKind.isKeyword_iff.2 ⟨_, hmem, rfl⟩

/-- **A word has the kind of a reserved word exactly if it is that word.** -/
theorem wordKind_eq_iff {entry : Text × TokenKind} (hentry : entry ∈ reservedWords)
    (word : Text) : wordKind word = entry.2 ↔ word = entry.1 := by
  have hkinds : ∀ a ∈ reservedWords, a.2 ≠ .lowerIdent := by decide
  have hinj : ∀ a ∈ reservedWords, ∀ b ∈ reservedWords, a.2 = b.2 → a.1 = b.1 := by decide
  have hself : ∀ a ∈ reservedWords, wordKind a.1 = a.2 := by decide
  constructor
  · intro h
    rcases wordKind_cases word with hlower | hmem
    · exact absurd (h.symm.trans hlower) (hkinds entry hentry)
    · exact hinj _ hmem _ hentry h
  · rintro rfl
    exact hself entry hentry

/-- Every reserved word is a lower-case word. -/
theorem isWord_of_mem_reservedWords {entry : Text × TokenKind} (hentry : entry ∈ reservedWords) :
    entry.1.IsWord isLowerStart := by
  have hall : ∀ a ∈ reservedWords, a.1.head?.any isLowerStart ∧ a.1.tail.all isNameChar := by
    decide +kernel
  obtain ⟨hfirst, hrest⟩ := hall entry hentry
  obtain ⟨c, hc, hlower⟩ := (Option.any_eq_true _ _).1 hfirst
  exact ⟨c, entry.1.tail, List.eq_cons_of_mem_head? hc, hlower, List.all_eq_true.1 hrest⟩

/-- **A reserved word is a lexeme of its kind**, unless the word goes on. -/
theorem Lexeme.ofSource_reserved {entry : Text × TokenKind} (hentry : entry ∈ reservedWords)
    {t : Text} (ht : ∀ c ∈ t.head?, isNameChar c = false) :
    ofSource (entry.1 ++ t) = ⟨entry.2, entry.1⟩ :: ofSource t := by
  obtain ⟨c, rest, hword, hc, hrest⟩ := isWord_of_mem_reservedWords hentry
  have hkind := (wordKind_eq_iff hentry (c :: rest)).2 hword.symm
  rw [hword, List.cons_append, ofSource_word hc hrest ht, hkind]

/-! ## Rules -/

namespace Scan

variable {c : Char} {t : Text}

theorem token_symbol (hc : isSymbol c) (t : Text) :
    token c t = if c = '-' && t.head? = some '-' then (.lineComment, run (!isLineEnd ·) t)
      else (.operator, run isSymbol t) := by
  unfold token
  rw [isSpace_of_isSymbol hc, hc]
  rfl

theorem token_digit (hc : c.isDigit) (t : Text) : token c t = (.number, number c t) := by
  have hname := isNameChar_of_isDigit hc
  unfold token
  rw [isSpace_of_isNameChar hname, isSymbol_of_isNameChar hname, isLowerStart_of_isDigit hc,
    isUpper_of_isDigit hc, hc]
  rfl

/-- **A token starts with a first character of its kind.** -/
theorem first_token {kind : TokenKind} (h : (token c t).1 = kind) : kind.first c := by
  subst h
  unfold token
  split_ifs with hspace hsymbol _ hlower hupper hdigit
  · rfl
  · rfl
  · exact hsymbol
  · exact (TokenKind.first_of_isWord (wordKind_isWord _)).trans hlower
  · exact hupper
  · exact hdigit
  · unfold stringLiteral
    split
    · split <;> rfl
    · dsimp only
      split_ifs <;> rfl
  · unfold charLiteral
    dsimp only
    split_ifs <;> rfl
  · rfl
  · unfold punctuationKind
    split <;> rfl

/-! ## Where rules end -/

/-- A run parts a text where its characters end. -/
theorem exists_run (p : Char → Bool) (t : Text) :
    ∃ s r, t = s ++ r ∧ (∀ d ∈ s, p d) ∧ ∀ d ∈ r.head?, p d = false := by
  refine ⟨t.takeWhile p, t.dropWhile p, List.takeWhile_append_dropWhile.symm,
    fun _ => List.mem_takeWhile_imp, fun d hd => ?_⟩
  have hnot := List.head?_dropWhile_not p t
  rwa [hd] at hnot

theorem take_run (p : Char → Bool) (t : Text) : t.take (run p t) = t.takeWhile p :=
  (List.prefix_iff_eq_take.1 (List.takeWhile_prefix p)).symm

/-- **What follows a run does not go on with it.** -/
theorem head?_drop_run (p : Char → Bool) (t : Text) :
    ∀ d ∈ (t.drop (run p t)).head?, p d = false := by
  obtain ⟨s, r, rfl, hs, hr⟩ := exists_run p t
  rwa [run_append_of_head? hs hr, List.drop_left]

/-! ## The spellings of tokens -/

/-- A token that goes on as names do is a word, by its first character. -/
theorem isWord_token {first : Char → Bool} (hrule : (token c t).2 = run isNameChar t) :
    Text.IsWord first (c :: t.take (token c t).2) ↔ first c := by
  rw [hrule, take_run]
  exact Text.isWord_cons fun _ => List.mem_takeWhile_imp

/-- **A decimal number is a numeral, or digits with a point.** -/
theorem isNumeral_decimal (hc : c.isDigit) (t : Text) :
    Text.IsNumeral (c :: t.take (decimal t))
      ∨ ∃ ds, Text.IsDigits ds ∧ c :: t.take (decimal t) = ds ++ ['.'] := by
  obtain ⟨s, r, rfl, hs, hr⟩ := exists_run Char.isDigit t
  have hwhole : Text.IsDigits (c :: s) :=
    ⟨List.cons_ne_nil _ _, List.forall_mem_cons.2 ⟨hc, hs⟩⟩
  unfold decimal
  dsimp only
  rw [run_append_of_head? hs hr, List.drop_left]
  split
  · rename_i fraction
    rw [Nat.add_assoc, List.take_length_add_append, Nat.add_comm, List.take_succ_cons, take_run]
    by_cases hfraction : fraction.takeWhile Char.isDigit = []
    · exact .inr ⟨c :: s, hwhole, by rw [hfraction, List.cons_append]⟩
    · exact .inl (.fraction hwhole ⟨hfraction, fun _ => List.mem_takeWhile_imp⟩)
  · rw [List.take_left]
    exact .inl (.whole hwhole)

theorem isNumeral_number (hc : c.isDigit) (t : Text) :
    Text.IsNumeral (c :: t.take (number c t))
      ∨ ∃ ds, Text.IsDigits ds ∧ c :: t.take (number c t) = ds ++ ['.'] := by
  unfold number
  split
  · rw [List.take_succ_cons, take_run]
    exact .inl (.hexadecimal fun _ => List.mem_takeWhile_imp)
  · exact isNumeral_decimal hc t

/-- A number goes on with digits to their end. -/
theorem number_of_isDigit (ht : ∀ d ∈ t, d.isDigit) : number c t = t.length := by
  unfold number
  split
  · exact absurd (ht 'x' List.mem_cons_self) (by decide)
  · have hrun := run_append_of_head? (t := []) ht nofun
    rw [List.append_nil] at hrun
    unfold decimal
    dsimp only
    rw [hrun, List.drop_length]

/-- A run of symbols is an operator unless it starts like a line comment. -/
theorem isOperator_run (hc : isSymbol c) :
    Text.IsOperator (c :: t.take (run isSymbol t)) ↔ ¬ (c = '-' ∧ t.head? = some '-') := by
  rw [take_run]
  constructor
  · rintro h ⟨rfl, hhead⟩
    obtain ⟨u, rfl⟩ := List.head?_eq_some_iff.1 hhead
    exact h.no_comment ⟨u.takeWhile isSymbol, rfl⟩
  · intro h
    refine ⟨List.cons_ne_nil _ _, List.forall_mem_cons.2 ⟨hc, fun _ => List.mem_takeWhile_imp⟩, ?_⟩
    rw [List.cons_prefix_cons]
    rintro ⟨rfl, hprefix⟩
    obtain ⟨u, hu⟩ := hprefix.trans (List.takeWhile_prefix isSymbol)
    exact h ⟨rfl, hu ▸ rfl⟩

/-! ## The kinds of tokens -/

theorem token_eq_upperIdent_iff :
    (token c t).1 = .upperIdent ↔ Text.IsWord Char.isUpper (c :: t.take (token c t).2) := by
  constructor
  · intro h
    have hc : c.isUpper := first_token h
    exact (isWord_token (congrArg Prod.snd (token_upper hc t))).2 hc
  · rintro ⟨d, rest, heq, hd, -⟩
    obtain ⟨rfl, -⟩ := List.cons.inj heq
    rw [token_upper hd]

theorem token_isWord_iff :
    (token c t).1 = .lowerIdent ∨ (token c t).1.isKeyword
      ↔ Text.IsWord isLowerStart (c :: t.take (token c t).2) := by
  constructor
  · intro h
    have hc : isLowerStart c := TokenKind.first_of_isWord h ▸ first_token rfl
    exact (isWord_token (congrArg Prod.snd (token_lower hc t))).2 hc
  · rintro ⟨d, rest, heq, hd, -⟩
    obtain ⟨rfl, -⟩ := List.cons.inj heq
    rw [token_lower hd]
    exact wordKind_isWord _

/-- **Which word it is** tells the kind of a lower-case one. -/
theorem token_eq_wordKind (h : Text.IsWord isLowerStart (c :: t.take (token c t).2)) :
    (token c t).1 = wordKind (c :: t.take (token c t).2) := by
  obtain ⟨d, rest, heq, hd, -⟩ := h
  obtain ⟨rfl, -⟩ := List.cons.inj heq
  rw [token_lower hd, take_run]

theorem token_eq_reserved_iff {entry : Text × TokenKind} (hentry : entry ∈ reservedWords) :
    (token c t).1 = entry.2 ↔ c :: t.take (token c t).2 = entry.1 := by
  constructor
  · intro h
    have hword := token_isWord_iff.1 (.inr (TokenKind.isKeyword_iff.2 ⟨entry, hentry, h.symm⟩))
    exact (wordKind_eq_iff hentry _).1 ((token_eq_wordKind hword).symm.trans h)
  · intro h
    have hword := isWord_of_mem_reservedWords hentry
    rw [← h] at hword
    exact (token_eq_wordKind hword).trans ((wordKind_eq_iff hentry _).2 h)

theorem token_eq_number_iff
    (hpoint : (token c t).1 = .number → (c :: t.take (token c t).2).getLast? ≠ some '.') :
    (token c t).1 = .number ↔ Text.IsNumeral (c :: t.take (token c t).2) := by
  constructor
  · intro h
    have hc := isDigit_of_number h
    have hend := hpoint h
    rw [token_digit hc] at hend ⊢
    refine (isNumeral_number hc t).resolve_right ?_
    rintro ⟨ds, -, hds⟩
    exact hend (hds ▸ List.getLast?_concat)
  · intro h
    rw [token_digit h.isDigit]

theorem token_eq_operator_iff :
    (token c t).1 = .operator ↔ Text.IsOperator (c :: t.take (token c t).2) := by
  constructor
  · intro h
    have hc : isSymbol c := first_token h
    rw [token_symbol hc] at h ⊢
    split_ifs at h ⊢ with hcomment
    rw [Bool.and_eq_true, decide_eq_true_eq, decide_eq_true_eq] at hcomment
    exact (isOperator_run hc).2 hcomment
  · intro h
    have hcomment := h.no_comment
    rw [token_symbol (h.symbols c List.mem_cons_self)] at hcomment ⊢
    split_ifs at hcomment ⊢ with hdashes
    · -- a line comment takes both dashes
      rw [Bool.and_eq_true, decide_eq_true_eq, decide_eq_true_eq] at hdashes
      obtain ⟨rfl, hhead⟩ := hdashes
      obtain ⟨u, rfl⟩ := List.head?_eq_some_iff.1 hhead
      rw [take_run] at hcomment
      exact absurd ⟨_, rfl⟩ hcomment
    · rfl

/-- **What follows a word does not go on with it.** -/
theorem head?_drop_word
    (h : (token c t).1 = .upperIdent ∨ (token c t).1 = .lowerIdent ∨ (token c t).1.isKeyword) :
    ∀ d ∈ (t.drop (token c t).2).head?, isNameChar d = false := by
  rcases h with h | h
  · rw [token_upper (first_token h)]
    exact head?_drop_run isNameChar t
  · rw [token_lower (TokenKind.first_of_isWord h ▸ first_token rfl)]
    exact head?_drop_run isNameChar t

/-- **What follows an operator does not go on with it.** -/
theorem head?_drop_operator (h : (token c t).1 = .operator) :
    ∀ d ∈ (t.drop (token c t).2).head?, isSymbol d = false := by
  have hc : isSymbol c := first_token h
  rw [token_symbol hc] at h ⊢
  split_ifs at h ⊢
  exact head?_drop_run isSymbol t

end Scan

namespace Lexeme

/-! ## Shapes -/

/-- **A lexeme is what its text is spelled like.** -/
structure WellShaped (l : Lexeme) : Prop where
  /-- `[A-Z][A-Za-z0-9_]*` -/
  upper : l.kind = .upperIdent ↔ l.text.IsWord Char.isUpper
  /-- `[a-z_][A-Za-z0-9_]*` -/
  lower : l.kind = .lowerIdent ∨ l.kind.isKeyword ↔ l.text.IsWord isLowerStart
  /-- A reserved word has its kind, and nothing else has. -/
  reserved : ∀ entry ∈ reservedWords, l.kind = entry.2 ↔ l.text = entry.1
  number : l.kind = .number ↔ l.text.IsNumeral
  operator : l.kind = .operator ↔ l.text.IsOperator

variable {source : Text} {before after : List Lexeme} {l : Lexeme}

/-- **A longest match is well shaped**, unless it is a number that ends in a
point. -/
theorem wellShaped_match {c : Char} {t : Text}
    (hpoint : (Scan.token c t).1 = .number → (c :: t.take (Scan.token c t).2).getLast? ≠ some '.') :
    WellShaped ⟨(Scan.token c t).1, c :: t.take (Scan.token c t).2⟩ where
  upper := Scan.token_eq_upperIdent_iff
  lower := Scan.token_isWord_iff
  reserved _ := Scan.token_eq_reserved_iff
  number := Scan.token_eq_number_iff hpoint
  operator := Scan.token_eq_operator_iff

/-- Digits are a longest match by themselves, so they are well shaped. -/
theorem wellShaped_digits {ds : Text} (hds : ds.IsDigits) : WellShaped ⟨.number, ds⟩ := by
  obtain ⟨c, s, rfl⟩ := List.exists_cons_of_ne_nil hds.1
  obtain ⟨hc, hs⟩ := List.forall_mem_cons.1 hds.2
  have hmatch := @wellShaped_match c s
  rw [Scan.token_digit hc, Scan.number_of_isDigit hs, List.take_length] at hmatch
  exact hmatch fun _ => hds.getLast?_ne

theorem wellShaped_dot : WellShaped dot :=
  wellShaped_match (c := '.') (t := []) nofun

/-! ## Places -/

/-- **A point that was matched with a number**: it follows the digits that it was
matched with. -/
def IsParted (source : Text) (before after : List Lexeme) : Prop :=
  ∃ ms digits ms', scan source = ms ++ ⟨.number, digits ++ ['.']⟩ :: ms'
    ∧ before = ms.flatMap splitPoint ++ [⟨.number, digits⟩]
    ∧ after = ms'.flatMap splitPoint

/-- **A lexeme in its place**, with those before and after it in a source. -/
structure InPlace (source : Text) (before : List Lexeme) (l : Lexeme) (after : List Lexeme) :
    Prop extends WellShaped l where
  spells : source = texts before ++ l.text ++ texts after
  /-- No name goes on after a word. -/
  word_ends : l.kind = .upperIdent ∨ l.kind = .lowerIdent ∨ l.kind.isKeyword →
    ∀ c ∈ (texts after).head?, isNameChar c = false
  /-- No number ends in a point. -/
  no_point : l.kind = .number → l.text.getLast? ≠ some '.'
  /-- No symbol follows an operator, unless it is a point parted from a number. -/
  operator_ends : l.kind = .operator →
    (∀ c ∈ (texts after).head?, isSymbol c = false) ∨ l = dot ∧ IsParted source before after

/-- **A longest match in its place**: the source goes on where it ends. -/
theorem exists_match_of_scan_eq {ms ms' : List Lexeme} {m : Lexeme}
    (h : scan source = ms ++ m :: ms') :
    ∃ c t, m = ⟨(Scan.token c t).1, c :: t.take (Scan.token c t).2⟩
      ∧ texts ms' = t.drop (Scan.token c t).2 := by
  fun_induction scan source generalizing ms with
  | case1 => exact absurd h.symm (List.append_ne_nil_of_right_ne_nil _ (List.cons_ne_nil _ _))
  | case2 c t kind n htoken ih =>
    cases ms with
    | nil =>
      obtain ⟨rfl, rfl⟩ := List.cons.inj h
      exact ⟨c, t, by rw [htoken], by rw [htoken, texts_scan]⟩
    | cons m' ms => exact ih (List.cons.inj h).2

/-- **A lexeme is part of a match**, and the lexemes around it are the other parts
of that match and of the other matches. -/
theorem exists_splitPoint_of_flatMap_eq {ms : List Lexeme}
    (h : ms.flatMap splitPoint = before ++ l :: after) :
    ∃ ls m rs left right, ms = ls ++ m :: rs ∧ m.splitPoint = left ++ l :: right
      ∧ before = ls.flatMap splitPoint ++ left ∧ after = right ++ rs.flatMap splitPoint := by
  induction ms generalizing before with
  | nil => exact absurd h.symm (List.append_ne_nil_of_right_ne_nil _ (List.cons_ne_nil _ _))
  | cons m ms ih =>
    rw [List.flatMap_cons, List.append_eq_append_iff] at h
    rcases h with ⟨front, rfl, hlater⟩ | ⟨back, hhere, hlater⟩
    · obtain ⟨ls, n, rs, left, right, rfl, hsplit, rfl, rfl⟩ := ih hlater
      exact ⟨m :: ls, n, rs, left, right, rfl, hsplit, by rw [List.flatMap_cons, List.append_assoc],
        rfl⟩
    · cases back with
      | nil =>
        obtain ⟨ls, n, rs, left, right, rfl, hsplit, hnil, rfl⟩ := @ih [] hlater.symm
        refine ⟨m :: ls, n, rs, left, right, rfl, hsplit, ?_, rfl⟩
        rw [List.flatMap_cons, List.append_assoc, ← hnil, hhere, List.append_nil, List.append_nil]
      | cons l' back =>
        obtain ⟨rfl, rfl⟩ := List.cons.inj hlater
        exact ⟨[], m, ms, before, back, rfl, hhere, rfl, rfl⟩

/-- **A match is a lexeme, or digits and a point that are parted.** -/
theorem splitPoint_cases {m : Lexeme} {left right : List Lexeme}
    (h : m.splitPoint = left ++ l :: right) :
    (¬ (m.kind = .number ∧ m.text.getLast? = some '.') ∧ left = [] ∧ l = m ∧ right = [])
      ∨ ∃ ds, m = ⟨.number, ds ++ ['.']⟩
        ∧ (left = [] ∧ l = ⟨.number, ds⟩ ∧ right = [dot]
          ∨ left = [⟨.number, ds⟩] ∧ l = dot ∧ right = []) := by
  unfold splitPoint at h
  split_ifs at h with hpoint
  · obtain ⟨kind, text⟩ := m
    obtain ⟨rfl, hlast⟩ := hpoint
    obtain ⟨ds, rfl⟩ := List.getLast?_eq_some_iff.1 hlast
    rw [List.dropLast_concat] at h
    refine .inr ⟨ds, rfl, ?_⟩
    rcases List.cons_eq_append_iff.1 h with ⟨rfl, hl⟩ | ⟨left, rfl, hl⟩
    · obtain ⟨rfl, rfl⟩ := List.cons.inj hl
      exact .inl ⟨rfl, rfl, rfl⟩
    · rcases List.singleton_eq_append_iff.1 hl with ⟨rfl, hl⟩ | ⟨-, hl⟩
      · obtain ⟨rfl, rfl⟩ := List.cons.inj hl
        exact .inr ⟨rfl, rfl, rfl⟩
      · exact absurd hl (List.cons_ne_nil _ _)
  · rcases List.singleton_eq_append_iff.1 h with ⟨rfl, hl⟩ | ⟨-, hl⟩
    · obtain ⟨rfl, rfl⟩ := List.cons.inj hl
      exact .inl ⟨hpoint, rfl, rfl, rfl⟩
    · exact absurd hl (List.cons_ne_nil _ _)

/-- What comes before the point that ends a match are digits. -/
theorem isDigits_of_match {c : Char} {t ds : Text}
    (h : (⟨.number, ds ++ ['.']⟩ : Lexeme) = ⟨(Scan.token c t).1, c :: t.take (Scan.token c t).2⟩) :
    ds.IsDigits := by
  obtain ⟨hkind, htext⟩ := Lexeme.mk.inj h
  have hc := Scan.isDigit_of_number hkind.symm
  rw [Scan.token_digit hc] at htext
  rcases Scan.isNumeral_number hc t with hnumeral | ⟨es, hes, heq⟩
  · exact absurd (htext ▸ List.getLast?_concat) hnumeral.getLast?_ne
  · rwa [List.append_cancel_right (htext.trans heq)]

/-- **Every lexeme of a source is in its place.** -/
theorem inPlace_of_ofSource_eq (h : ofSource source = before ++ l :: after) :
    InPlace source before l after := by
  have hspells : source = texts before ++ l.text ++ texts after := by
    rw [← texts_ofSource source, h, texts_append, texts_cons, List.append_assoc]
  obtain ⟨ms, m, ms', left, right, hscan, hsplit, rfl, rfl⟩ := exists_splitPoint_of_flatMap_eq h
  obtain ⟨c, t, hm, hrest⟩ := exists_match_of_scan_eq hscan
  rcases splitPoint_cases hsplit with ⟨hpoint, rfl, rfl, rfl⟩
    | ⟨ds, rfl, ⟨rfl, rfl, rfl⟩ | ⟨rfl, rfl, rfl⟩⟩
  · -- a match that is not parted
    subst hm
    have hafter : texts ([] ++ ms'.flatMap splitPoint) = t.drop (Scan.token c t).2 := by
      rw [List.nil_append, texts_flatMap_splitPoint, hrest]
    refine ⟨wellShaped_match fun hkind hlast => hpoint ⟨hkind, hlast⟩, hspells, fun hkind => ?_,
      fun hkind hlast => hpoint ⟨hkind, hlast⟩, fun hkind => .inl ?_⟩
    · rw [hafter]
      exact Scan.head?_drop_word hkind
    · rw [hafter]
      exact Scan.head?_drop_operator hkind
  · -- the digits before a point
    have hds := isDigits_of_match hm
    exact ⟨wellShaped_digits hds, hspells, fun hkind => absurd hkind (by dsimp only; decide),
      fun _ => hds.getLast?_ne, nofun⟩
  · -- the point after them
    exact ⟨wellShaped_dot, hspells, fun hkind => absurd hkind (by decide), nofun,
      fun _ => .inr ⟨rfl, ms, ds, ms', hscan, rfl, rfl⟩⟩

end Lexeme

namespace Token

variable {source : Text} {t : Token}

/-- **Words, numerals and operators are told by their spelling**, reserved words
among them, and all of them go on as long as they can: every token of a source is
a lexeme in its place, at the byte after those before it. -/
theorem inPlace_of_mem_ofSource (ht : t ∈ ofSource source) :
    ∃ before after, Lexeme.ofSource source = before ++ t.toLexeme :: after
      ∧ t.start = (Lexeme.texts before).byteSize
      ∧ t.toLexeme.InPlace source before after := by
  obtain ⟨before, l, after, hls, rfl⟩ := mem_place ht
  exact ⟨before, after, hls, Nat.zero_add _, Lexeme.inPlace_of_ofSource_eq hls⟩

/-- A point parted from its number, before an operator and a reserved word. -/
theorem inPlace_of_mem_ofSource_point :
    (⟨.dot, 1⟩ : Token) ∈ ofSource "1.|>as".toList
    ∧ ∃ before after, Lexeme.ofSource "1.|>as".toList = before ++ .dot :: after
        ∧ 1 = (Lexeme.texts before).byteSize
        ∧ Lexeme.dot.InPlace "1.|>as".toList before after := by
  have ht : (⟨.dot, 1⟩ : Token) ∈ ofSource "1.|>as".toList := by decide +kernel
  exact ⟨ht, inPlace_of_mem_ofSource ht⟩

end Token

end EditorCore
