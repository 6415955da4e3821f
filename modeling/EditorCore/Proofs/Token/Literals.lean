import EditorCore.Proofs.Token.Quotes
import EditorCore.Proofs.Token.Words

/-!
# Literals, errors and the ends of lines

A quote is followed by anything: the rest of its literal, a line that ends before the
literal is closed, two more quotes and then a string over many lines, or two more
quotes and nothing that ever closes them. What the lexer makes of it is told here by
texts: what stands between quotes (`Text.InLiteral`), what leaves a literal open
(`Text.LeavesOpen`), and which three quotes close the three that open a string
(`ByteScan.FirstQuotes`). By these, a lexeme and the text after it show whether it is a
literal, an open one or an error (`Lexeme.Delimited`).

All but blanks, block comments and what three quotes open stays on its line. So a quote
that nothing closes costs the rest of a line, and three of them the rest of the source.
-/

namespace EditorCore

/-! ## Spellings -/

namespace Text

/-- **What stands between the quotes of a literal**, `([^q\\\r\n]|\\.)*`: a backslash
takes any character along but a line feed. -/
inductive InLiteral (quote : Char) : Text → Prop
  | nil : InLiteral quote []
  | plain {c : Char} {t : Text} : c ≠ quote → c ≠ '\\' → isLineEnd c = false →
      InLiteral quote t → InLiteral quote (c :: t)
  | escaped {c : Char} {t : Text} : c ≠ '\n' → InLiteral quote t →
      InLiteral quote ('\\' :: c :: t)

/-- **A literal**, closed by the quote that opens it. -/
def IsLiteral (quote : Char) (t : Text) : Prop :=
  ∃ body, InLiteral quote body ∧ t = quote :: (body ++ [quote])

/-- **A literal that is left open.** -/
def IsOpenLiteral (quote : Char) (t : Text) : Prop :=
  ∃ body, InLiteral quote body ∧ t = quote :: body

/-- **A text leaves a literal before it open**: it ends, or its line does, or it goes on
with a backslash that has no character to take along. -/
inductive LeavesOpen : Text → Prop
  | ended : LeavesOpen []
  | lineEnd {c : Char} {t : Text} : isLineEnd c → LeavesOpen (c :: t)
  | backslash : LeavesOpen ['\\']
  | backslash_newline {t : Text} : LeavesOpen ('\\' :: '\n' :: t)

end Text

/-- **The first characters of tokens.** -/
def startsToken (c : Char) : Bool :=
  isSpace c || isSymbol c || isLowerStart c || c.isUpper || c.isDigit
    || ['"', '\'', '(', ')', '[', ']', '{', '}', ',', ';', '\x60'].contains c

/-- The quote that opens a token of a kind, for kinds that have one. -/
def TokenKind.opener : TokenKind → Option Char
  | string | multilineString | unterminatedString => some '"'
  | char | unterminatedChar => some '\''
  | _ => none

namespace Scan

open Text

variable {quote c : Char} {t body rest : Text}

/-! ## Literals within a line -/

/-- What stands between quotes is taken, closed or not. -/
theorem literal_inLiteral (h : InLiteral quote body) (rest : Text) :
    literal quote (body ++ rest)
      = ((literal quote rest).1 + body.length, (literal quote rest).2) := by
  induction h with
  | nil => rfl
  | plain hquote hskip hend _ ih =>
    rw [List.cons_append, literal_cons hskip, if_neg hquote,
      if_neg (Bool.eq_false_iff.1 hend), ih, List.length_cons, Nat.add_assoc]
  | escaped hc _ ih =>
    rw [List.cons_append, List.cons_append, literal, if_neg hc, ih]
    rfl

theorem literal_quote (hskip : quote ≠ '\\') (rest : Text) :
    literal quote (quote :: rest) = (1, true) := by
  rw [literal_cons hskip, if_pos rfl]

theorem literal_leavesOpen (hskip : quote ≠ '\\') (hline : isLineEnd quote = false)
    (h : LeavesOpen rest) : literal quote rest = (0, false) := by
  cases h with
  | ended => rfl
  | @lineEnd c t hc =>
    have hne : c ≠ quote := by
      rintro rfl
      rw [hline] at hc
      exact absurd hc Bool.false_ne_true
    rw [literal_cons (by rintro rfl; exact absurd hc (by decide)), if_neg hne, if_pos hc]
  | backslash => exact if_neg hskip.symm
  | backslash_newline => rfl

/-- **What follows a quote**: text between quotes and then the closing quote, or what
leaves the literal open. -/
theorem exists_inLiteral (quote : Char) (t : Text) :
    ∃ body rest, t = body ++ rest ∧ InLiteral quote body
      ∧ (rest.head? = some quote ∨ LeavesOpen rest) := by
  induction t using literal.induct quote with
  | case1 => exact ⟨[], [], rfl, .nil, .inr .ended⟩
  | case2 t => exact ⟨[], _, rfl, .nil, .inr .backslash_newline⟩
  | case3 c t hc n closed hrest ih =>
    obtain ⟨body, rest, rfl, hbody, hend⟩ := ih
    exact ⟨'\\' :: c :: body, rest, rfl, .escaped hc hbody, hend⟩
  | case4 t hnot => exact ⟨[], _, rfl, .nil, .inl rfl⟩
  | case5 c t hnot hquote hend =>
    refine ⟨[], _, rfl, .nil, .inr ?_⟩
    rw [Bool.or_eq_true, decide_eq_true_eq] at hend
    rcases hend with rfl | hend
    · cases t with
      | nil => exact .backslash
      | cons d u => exact absurd rfl (hnot d u rfl)
    · exact .lineEnd hend
  | case6 c t hnot hquote hend n closed hrest ih =>
    rw [Bool.or_eq_true, decide_eq_true_eq, not_or] at hend
    obtain ⟨body, rest, rfl, hbody, hend'⟩ := ih
    exact ⟨c :: body, rest, rfl, .plain hquote hend.1 (Bool.eq_false_iff.2 hend.2) hbody, hend'⟩

/-- **A literal is closed, or it is left open.** -/
theorem literal_cases (hskip : quote ≠ '\\') (hline : isLineEnd quote = false) (t : Text) :
    (∃ body rest, t = body ++ quote :: rest ∧ InLiteral quote body
        ∧ literal quote t = (body.length + 1, true))
      ∨ ∃ body rest, t = body ++ rest ∧ InLiteral quote body ∧ LeavesOpen rest
        ∧ literal quote t = (body.length, false) := by
  obtain ⟨body, rest, rfl, hbody, hhead | hopen⟩ := exists_inLiteral quote t
  · obtain ⟨rest, rfl⟩ := List.head?_eq_some_iff.1 hhead
    refine .inl ⟨body, rest, rfl, hbody, ?_⟩
    rw [literal_inLiteral hbody, literal_quote hskip, Nat.add_comm]
  · refine .inr ⟨body, rest, rfl, hbody, hopen, ?_⟩
    rw [literal_inLiteral hbody, literal_leavesOpen hskip hline hopen, Nat.zero_add]

/-- What stands between quotes does not close its literal. -/
theorem not_isLiteral_of_isOpenLiteral (hskip : quote ≠ '\\') (h : IsOpenLiteral quote t) :
    ¬ IsLiteral quote t := by
  rintro ⟨body, hbody, rfl⟩
  obtain ⟨body', hbody', heq⟩ := h
  have hopen := literal_inLiteral hbody' []
  rw [List.append_nil, ← (List.cons.inj heq).2, literal_inLiteral hbody, literal_quote hskip]
    at hopen
  exact absurd (congrArg Prod.snd hopen) (by simp [literal])

/-- **Whether a literal is closed shows in its text.** -/
theorem literal_iff (hskip : quote ≠ '\\') (hline : isLineEnd quote = false) (t : Text) :
    ((literal quote t).2 = true
        ↔ IsLiteral quote (quote :: t.take (literal quote t).1))
      ∧ ((literal quote t).2 = false
        ↔ IsOpenLiteral quote (quote :: t.take (literal quote t).1)) := by
  rcases literal_cases hskip hline t
    with ⟨body, rest, rfl, hbody, heq⟩ | ⟨body, rest, rfl, hbody, -, heq⟩
  · have htake : (body ++ quote :: rest).take (body.length + 1) = body ++ [quote] := by
      rw [List.take_length_add_append]
      rfl
    have hclosed : IsLiteral quote (quote :: (body ++ [quote])) := ⟨body, hbody, rfl⟩
    rw [heq, htake]
    exact ⟨iff_of_true rfl hclosed,
      iff_of_false nofun fun h => not_isLiteral_of_isOpenLiteral hskip h hclosed⟩
  · have hopen : IsOpenLiteral quote (quote :: body) := ⟨body, hbody, rfl⟩
    rw [heq, List.take_left]
    exact ⟨iff_of_false nofun (not_isLiteral_of_isOpenLiteral hskip hopen),
      iff_of_true rfl hopen⟩

/-- **What leaves a literal open follows it.** -/
theorem leavesOpen_of_literal (hskip : quote ≠ '\\') (hline : isLineEnd quote = false)
    (h : (literal quote t).2 = false) : LeavesOpen (t.drop (literal quote t).1) := by
  rcases literal_cases hskip hline t
    with ⟨body, rest, rfl, -, heq⟩ | ⟨body, rest, rfl, -, hopen, heq⟩
  · rw [heq] at h
    exact absurd h nofun
  · rwa [heq, List.drop_left]

/-! ## First characters -/

theorem opener_wordKind (word : Text) :
    (wordKind word).opener = none ∧ wordKind word ≠ .error :=
  forall_wordKind (P := fun kind => kind.opener = none ∧ kind ≠ .error) (by decide)
    (by decide) word

/-- **What a quote opens starts with that quote.** -/
theorem opener_token {q : Char} (h : (token c t).1.opener = some q) : c = q := by
  unfold token at h
  split_ifs at h with _ _ _ _ _ _ hquote happ
  · exact absurd h nofun
  · exact absurd h nofun
  · exact absurd h nofun
  · exact absurd (h.symm.trans (opener_wordKind _).1) nofun
  · exact absurd h nofun
  · exact absurd h nofun
  · rw [hquote]
    revert h
    unfold stringLiteral
    split
    · split
      · exact Option.some.inj
      · exact nofun
    · dsimp only
      split_ifs <;> exact Option.some.inj
  · rw [happ]
    revert h
    unfold charLiteral
    dsimp only
    split_ifs <;> exact Option.some.inj
  · exact absurd h nofun
  · revert h
    unfold punctuationKind
    split <;> exact nofun

/-- A character that starts no token is an error by itself. -/
theorem token_of_not_startsToken (hc : startsToken c = false) (t : Text) :
    token c t = (.error, 0) := by
  simp only [startsToken, Bool.or_eq_false_iff] at hc
  obtain ⟨⟨⟨⟨⟨hspace, hsymbol⟩, hlower⟩, hupper⟩, hdigit⟩, hother⟩ := hc
  have hpunctuation : punctuationKind c = .error := by
    unfold punctuationKind
    split <;> first | rfl | exact absurd hother (by decide)
  have hne : c ≠ '"' ∧ c ≠ '\'' ∧ c ≠ '{' := by
    refine ⟨?_, ?_, ?_⟩ <;> (rintro rfl; exact absurd hother (by decide))
  unfold token
  rw [hspace, hsymbol, hlower, hupper, hdigit, hpunctuation, if_neg hne.1, if_neg hne.2.1,
    decide_eq_false hne.2.2]
  rfl

/-- Beyond ASCII nothing starts a token. -/
theorem startsToken_of_le (hc : 128 ≤ c.toNat) : startsToken c = false := by
  have hname (h : isNameChar c) : False := Nat.not_le.2 (toNat_lt_of_isNameChar h) hc
  rw [Bool.eq_false_iff]
  intro h
  simp only [startsToken, Bool.or_eq_true] at h
  rcases h with ((((hspace | hsymbol) | hlower) | hupper) | hdigit) | hother
  · simp only [isSpace, Bool.or_eq_true, beq_iff_eq] at hspace
    rcases hspace with ((rfl | rfl) | rfl) | rfl <;> exact absurd hc (by decide)
  · rw [isSymbol, List.contains_iff_mem] at hsymbol
    fin_cases hsymbol <;> exact absurd hc (by decide)
  · exact hname (isNameChar_of_isLowerStart hlower)
  · exact hname (isNameChar_of_isUpper hupper)
  · exact hname (isNameChar_of_isDigit hdigit)
  · rw [List.contains_iff_mem] at hother
    fin_cases hother <;> exact absurd hc (by decide)

/-- Only a character that starts no token, or a quote, is read as an error. -/
theorem startsToken_of_error (h : (token c t).1 = .error) (hquote : c ≠ '"') :
    startsToken c = false := by
  unfold token at h
  split_ifs at h with hspace hsymbol _ hlower hupper hdigit happ
  · exact absurd h (opener_wordKind _).2
  · revert h
    unfold charLiteral
    dsimp only
    split_ifs <;> exact nofun
  · have hother :
        ['"', '\'', '(', ')', '[', ']', '{', '}', ',', ';', '\x60'].contains c = false := by
      rw [Bool.eq_false_iff, Ne, List.contains_iff_mem]
      intro hmem
      fin_cases hmem
      · exact hquote rfl
      · exact happ rfl
      all_goals exact absurd h (by decide)
    rw [startsToken, Bool.eq_false_iff.2 hspace, Bool.eq_false_iff.2 hsymbol,
      Bool.eq_false_iff.2 hlower, Bool.eq_false_iff.2 hupper, Bool.eq_false_iff.2 hdigit, hother]
    rfl

/-! ## What three quotes start -/

/-- The text of a token that starts with three quotes shows that the source does. -/
theorem exists_of_eq_quotes {n : Nat} {s : Text} (h : c :: t.take n = quotes ++ s) :
    c = '"' ∧ ∃ u, t = '"' :: '"' :: u := by
  change c :: t.take n = '"' :: '"' :: '"' :: s at h
  obtain ⟨hc, htake⟩ := List.cons.inj h
  refine ⟨hc, s ++ t.drop n, ?_⟩
  conv_lhs => rw [← List.take_append_drop n t, htake]
  rfl

/-- Where three quotes do not, nothing starts a string over many lines, and a character
is an error only if it starts no token. -/
theorem token_of_not_quotes (h : ¬ (c = '"' ∧ ∃ u, t = '"' :: '"' :: u)) :
    (token c t).1 ≠ .multilineString ∧ ((token c t).1 = .error ↔ startsToken c = false) := by
  by_cases hc : c = '"'
  · subst hc
    have htoken : token '"' t = _ :=
      stringLiteral.eq_2 t fun u hu => h ⟨rfl, u, hu⟩
    rw [htoken]
    dsimp only
    split_ifs <;> decide
  · refine ⟨fun hkind => hc (opener_token (q := '"') (by rw [hkind]; rfl)),
      fun hkind => startsToken_of_error hkind hc, fun hstarts => ?_⟩
    rw [token_of_not_startsToken hstarts]

/-- **Three quotes start a string up to the first three that are reached**, or an error
that takes all the rest. -/
theorem match_quotes {u : Text} (ht : t = '"' :: '"' :: u) :
    ((token '"' t).1 = .multilineString
        ∧ ∃ body : Text, '"' :: t.take (token '"' t).2 = quotes ++ (body ++ quotes)
          ∧ ByteScan.FirstQuotes (utf8 (body ++ (quotes ++ t.drop (token '"' t).2)))
            body.byteSize)
      ∨ (token '"' t).1 = .error ∧ '"' :: t.take (token '"' t).2 = quotes ++ u
        ∧ t.drop (token '"' t).2 = [] ∧ ByteScan.NoQuotes u.utf8 := by
  subst ht
  rw [token_openTriple]
  cases hclosed : tripleQuoted u with
  | some n =>
    obtain ⟨body, rest, rfl, rfl, hfirst⟩ := tripleQuoted_eq_some hclosed
    have htake : (body ++ (quotes ++ rest)).take (body.length + 3) = body ++ quotes := by
      rw [List.take_length_add_append]
      rfl
    have hdrop : (body ++ (quotes ++ rest)).drop (body.length + 3) = rest := by
      rw [List.drop_length_add_append]
      rfl
    refine .inl ⟨rfl, body, ?_, ?_⟩
    · rw [List.take_succ_cons, List.take_succ_cons, htake]
      rfl
    · rwa [List.drop_succ_cons, List.drop_succ_cons, hdrop]
  | none =>
    refine .inr ⟨rfl, ?_, ?_, noQuotes_of_tripleQuoted hclosed⟩
    · rw [List.take_succ_cons, List.take_succ_cons, List.take_length]
      rfl
    · rw [List.drop_succ_cons, List.drop_succ_cons, List.drop_length]

/-- Either way it starts with them. -/
theorem kind_match_quotes {u : Text} (ht : t = '"' :: '"' :: u) :
    ((token '"' t).1 = .multilineString ∨ (token '"' t).1 = .error)
      ∧ ∃ s, '"' :: t.take (token '"' t).2 = quotes ++ s := by
  rcases match_quotes ht with ⟨hkind, body, htext, -⟩ | ⟨hkind, htext, -⟩
  · exact ⟨.inl hkind, _, htext⟩
  · exact ⟨.inr hkind, _, htext⟩

theorem token_eq_multilineString_iff :
    (token c t).1 = .multilineString
      ↔ ∃ body : Text, c :: t.take (token c t).2 = quotes ++ (body ++ quotes)
        ∧ ByteScan.FirstQuotes (utf8 (body ++ (quotes ++ t.drop (token c t).2)))
          body.byteSize := by
  by_cases hquotes : c = '"' ∧ ∃ u, t = '"' :: '"' :: u
  · obtain ⟨rfl, u, ht⟩ := hquotes
    rcases match_quotes ht with ⟨hkind, hbody⟩ | ⟨hkind, htext, hrest, hnone⟩
    · exact iff_of_true hkind hbody
    · rw [hkind, htext, hrest]
      refine iff_of_false nofun ?_
      rintro ⟨body, heq, hfirst⟩
      obtain rfl : u = body ++ quotes := (List.append_right_inj quotes).1 heq
      rw [List.append_nil] at hfirst
      exact hfirst.not_noQuotes hnone
  · refine iff_of_false (token_of_not_quotes hquotes).1 ?_
    rintro ⟨body, htext, -⟩
    exact hquotes (exists_of_eq_quotes htext)

theorem token_eq_error_iff :
    (token c t).1 = .error
      ↔ (∃ d, c :: t.take (token c t).2 = [d] ∧ startsToken d = false)
        ∨ ∃ body : Text, c :: t.take (token c t).2 = quotes ++ body
          ∧ t.drop (token c t).2 = [] ∧ ByteScan.NoQuotes body.utf8 := by
  by_cases hquotes : c = '"' ∧ ∃ u, t = '"' :: '"' :: u
  · obtain ⟨rfl, u, ht⟩ := hquotes
    rcases match_quotes ht with ⟨hkind, body, htext, hfirst⟩ | ⟨hkind, hrest⟩
    · rw [hkind, htext]
      refine iff_of_false nofun ?_
      rintro (⟨d, heq, -⟩ | ⟨s, heq, hrest, hnone⟩)
      · exact absurd heq nofun
      · obtain rfl : body ++ quotes = s := (List.append_right_inj quotes).1 heq
        rw [hrest, List.append_nil] at hfirst
        exact hfirst.not_noQuotes hnone
    · exact iff_of_true hkind (.inr ⟨u, hrest⟩)
  · rw [(token_of_not_quotes hquotes).2]
    constructor
    · intro hstarts
      rw [token_of_not_startsToken hstarts]
      exact .inl ⟨c, rfl, hstarts⟩
    · rintro (⟨d, htext, hstarts⟩ | ⟨body, htext, -⟩)
      · rwa [(List.cons.inj htext).1]
      · exact absurd (exists_of_eq_quotes htext) hquotes

/-! ## What one quote starts -/

/-- What opens a string over many lines is no literal, closed or open. -/
theorem not_inLiteral_quote (hskip : quote ≠ '\\') (t : Text) :
    ¬ InLiteral quote (quote :: t) := by
  intro h
  cases h with
  | plain hne => exact hne rfl
  | escaped => exact hskip rfl

theorem not_isOpenLiteral_quotes (t : Text) : ¬ IsOpenLiteral '"' (quotes ++ t) := by
  rintro ⟨body, hbody, heq⟩
  rw [← (List.cons.inj heq).2] at hbody
  exact not_inLiteral_quote (by decide) _ hbody

theorem not_isLiteral_quotes (t : Text) : ¬ IsLiteral '"' (quotes ++ t) := by
  rintro ⟨body, hbody, heq⟩
  have htail := (List.cons.inj heq).2
  cases body with
  | nil => exact absurd htail nofun
  | cons d body =>
    obtain rfl := (List.cons.inj htail).1
    exact not_inLiteral_quote (by decide) _ hbody

/-- **A quote starts a literal of one kind or of the other**, as its text shows. -/
theorem literal_kind_iff (hskip : quote ≠ '\\') (hline : isLineEnd quote = false)
    {closed opened : TokenKind} (hne : closed ≠ opened) (t : Text) :
    ((if (literal quote t).2 then closed else opened) = closed
        ↔ IsLiteral quote (quote :: t.take (literal quote t).1))
      ∧ ((if (literal quote t).2 then closed else opened) = opened
        ↔ IsOpenLiteral quote (quote :: t.take (literal quote t).1)) := by
  rw [← (literal_iff hskip hline t).1, ← (literal_iff hskip hline t).2]
  cases (literal quote t).2 <;> simp [hne, hne.symm]

/-- Nothing else does. -/
theorem literal_kind_iff_of_ne (hc : c ≠ quote) {closed opened : TokenKind}
    (hclosed : closed.opener = some quote) (hopened : opened.opener = some quote) :
    ((token c t).1 = closed ↔ IsLiteral quote (c :: t.take (token c t).2))
      ∧ ((token c t).1 = opened ↔ IsOpenLiteral quote (c :: t.take (token c t).2)) := by
  refine ⟨iff_of_false (fun hkind => hc (opener_token (by rw [hkind, hclosed]))) ?_,
    iff_of_false (fun hkind => hc (opener_token (by rw [hkind, hopened]))) ?_⟩
  · rintro ⟨body, -, heq⟩
    exact hc (List.cons.inj heq).1
  · rintro ⟨body, -, heq⟩
    exact hc (List.cons.inj heq).1

theorem token_string_iff :
    ((token c t).1 = .string ↔ IsLiteral '"' (c :: t.take (token c t).2))
      ∧ ((token c t).1 = .unterminatedString
        ↔ IsOpenLiteral '"' (c :: t.take (token c t).2)) := by
  by_cases hc : c = '"'
  · subst hc
    by_cases hquotes : ∃ u, t = '"' :: '"' :: u
    · obtain ⟨u, ht⟩ := hquotes
      obtain ⟨hkind | hkind, s, htext⟩ := kind_match_quotes ht
      all_goals
        rw [hkind, htext]
        exact ⟨iff_of_false nofun (not_isLiteral_quotes s),
          iff_of_false nofun (not_isOpenLiteral_quotes s)⟩
    · have htoken : token '"' t = _ := stringLiteral.eq_2 t fun u hu => hquotes ⟨u, hu⟩
      rw [htoken]
      exact literal_kind_iff (by decide) rfl (by decide) t
  · exact literal_kind_iff_of_ne hc rfl rfl

theorem token_char_iff :
    ((token c t).1 = .char ↔ IsLiteral '\'' (c :: t.take (token c t).2))
      ∧ ((token c t).1 = .unterminatedChar
        ↔ IsOpenLiteral '\'' (c :: t.take (token c t).2)) := by
  by_cases hc : c = '\''
  · subst hc
    exact literal_kind_iff (by decide) rfl (by decide) t
  · exact literal_kind_iff_of_ne hc rfl rfl

/-- **What leaves a literal open follows it** where it is not closed. -/
theorem leavesOpen_token
    (h : (token c t).1 = .unterminatedString ∨ (token c t).1 = .unterminatedChar) :
    LeavesOpen (t.drop (token c t).2) := by
  rcases h with hkind | hkind
  · obtain rfl : c = '"' := opener_token (by rw [hkind]; rfl)
    by_cases hquotes : ∃ u, t = '"' :: '"' :: u
    · obtain ⟨u, ht⟩ := hquotes
      rcases (kind_match_quotes ht).1 with hquotes | hquotes
      · exact absurd (hquotes.symm.trans hkind) (by decide)
      · exact absurd (hquotes.symm.trans hkind) (by decide)
    · have htoken : token '"' t = _ := stringLiteral.eq_2 t fun u hu => hquotes ⟨u, hu⟩
      rw [htoken] at hkind ⊢
      exact leavesOpen_of_literal (by decide) rfl (Bool.eq_false_iff.2 fun hclosed =>
        absurd (hkind.symm.trans (if_pos hclosed)) (by decide))
  · obtain rfl : c = '\'' := opener_token (by rw [hkind]; rfl)
    exact leavesOpen_of_literal (by decide) rfl (Bool.eq_false_iff.2 fun hclosed =>
      absurd (hkind.symm.trans (if_pos hclosed)) (by decide))

/-- **Only blanks, block comments and what three quotes open run over lines.** -/
theorem mem_of_newline_mem (h : '\n' ∈ c :: t.take (token c t).2) :
    (token c t).1 ∈ [.whitespace, .blockComment, .multilineString, .error] := by
  by_cases hspace : isSpace c
  · rw [token_space hspace]
    exact List.mem_cons_self
  have hc : '\n' ≠ c := by
    rintro rfl
    exact hspace rfl
  have hmem := (List.mem_cons.1 h).resolve_left hc
  obtain ⟨s, r, rfl, hs⟩ := List.eq_append_cons_of_mem (List.mem_of_mem_take hmem)
  -- a token that is read within its line does not come to the line feed
  have hwithin : ¬ (token c (s ++ '\n' :: r)).2 ≤ s.length := fun hle => by
    rw [List.take_append_of_le_length hle] at hmem
    exact hs (List.mem_of_mem_take hmem)
  by_cases hquotes : c = '"' ∧ ∃ u, s ++ '\n' :: r = '"' :: '"' :: u
  · obtain ⟨rfl, u, ht⟩ := hquotes
    rcases (kind_match_quotes ht).1 with hkind | hkind
    · rw [hkind]
      decide
    · rw [hkind]
      decide
  by_cases hquote : c = '"'
  · subst hquote
    have htoken : token '"' (s ++ '\n' :: r) = _ :=
      stringLiteral.eq_2 _ fun u hu => hquotes ⟨rfl, u, hu⟩
    rw [htoken, literal_newline (by decide) (by decide)] at hwithin
    exact absurd (literal_le '"' s) hwithin
  by_cases hopen : c = '{' ∧ s.head? = some '-'
  · obtain ⟨rfl, hhead⟩ := hopen
    obtain ⟨u, rfl⟩ := List.head?_eq_some_iff.1 hhead
    rw [List.cons_append, token_openComment]
    dsimp only
    decide
  · rw [token_newline hspace hquote hopen] at hwithin
    exact absurd (token_le c s) hwithin

end Scan

namespace Lexeme

open Text

/-! ## Places -/

/-- **A lexeme and the text after it** show whether it is a literal, an open one or an
error, and nothing else runs over lines but blanks and block comments. -/
structure Delimited (l : Lexeme) (rest : Text) : Prop where
  line_feed : '\n' ∈ l.text → l.kind ∈ [.whitespace, .blockComment, .multilineString, .error]
  /-- A character that starts no token, or three quotes that nothing closes before the
  source ends. -/
  error : l.kind = .error
    ↔ (∃ c, l.text = [c] ∧ startsToken c = false)
      ∨ ∃ body : Text, l.text = quotes ++ body ∧ rest = [] ∧ ByteScan.NoQuotes body.utf8
  /-- Between three quotes and the first three that are reached behind them. -/
  multiline : l.kind = .multilineString
    ↔ ∃ body : Text, l.text = quotes ++ (body ++ quotes)
      ∧ ByteScan.FirstQuotes (utf8 (body ++ (quotes ++ rest))) body.byteSize
  string : l.kind = .string ↔ l.text.IsLiteral '"'
  char : l.kind = .char ↔ l.text.IsLiteral '\''
  open_string : l.kind = .unterminatedString ↔ l.text.IsOpenLiteral '"'
  open_char : l.kind = .unterminatedChar ↔ l.text.IsOpenLiteral '\''
  /-- An open literal is followed by what leaves it open. -/
  stays_open : l.kind = .unterminatedString ∨ l.kind = .unterminatedChar → rest.LeavesOpen

variable {source : Text} {before after : List Lexeme} {l : Lexeme}

/-- **A longest match is delimited.** -/
theorem delimited_match (c : Char) (t : Text) :
    Delimited ⟨(Scan.token c t).1, c :: t.take (Scan.token c t).2⟩
      (t.drop (Scan.token c t).2) where
  line_feed := Scan.mem_of_newline_mem
  error := Scan.token_eq_error_iff
  multiline := Scan.token_eq_multilineString_iff
  string := Scan.token_string_iff.1
  char := Scan.token_char_iff.1
  open_string := Scan.token_string_iff.2
  open_char := Scan.token_char_iff.2
  stays_open := Scan.leavesOpen_token

/-- What follows a number or an operator has no part in it. -/
theorem Delimited.congr_rest {rest : Text} (h : l.Delimited rest)
    (hkind : l.kind = .number ∨ l.kind = .operator) (hhead : l.text.head? ≠ some '"')
    (rest' : Text) : l.Delimited rest' := by
  have hquotes : ∀ s, l.text ≠ quotes ++ s := fun s htext => hhead (by rw [htext]; rfl)
  refine { h with error := ?_, multiline := ?_, stays_open := ?_ }
  · refine iff_of_false (by rcases hkind with hk | hk <;> rw [hk] <;> decide) ?_
    rintro (hone | ⟨body, htext, -⟩)
    · rcases hkind with hk | hk
      all_goals exact absurd (hk.symm.trans (h.error.2 (.inl hone))) nofun
    · exact hquotes _ htext
  · refine iff_of_false (by rcases hkind with hk | hk <;> rw [hk] <;> decide) ?_
    rintro ⟨body, htext, -⟩
    exact hquotes _ htext
  · rcases hkind with hk | hk <;> rw [hk] <;> exact nofun

/-- **Every lexeme of a source is delimited** by what it is made of and by the source
after it. -/
theorem delimited_of_ofSource_eq (h : ofSource source = before ++ l :: after) :
    l.Delimited (texts after) := by
  obtain ⟨ms, m, ms', left, right, hscan, hsplit, rfl, rfl⟩ := exists_splitPoint_of_flatMap_eq h
  obtain ⟨c, t, hm, hrest⟩ := exists_match_of_scan_eq hscan
  rcases splitPoint_cases hsplit with ⟨-, rfl, rfl, rfl⟩
    | ⟨ds, rfl, ⟨rfl, rfl, rfl⟩ | ⟨rfl, rfl, rfl⟩⟩
  · -- a match that is not parted
    rw [List.nil_append, texts_flatMap_splitPoint, hrest, hm]
    exact delimited_match c t
  · -- the digits before a point, which are a match by themselves
    have hds := isDigits_of_match hm
    obtain ⟨d, s, rfl⟩ := List.exists_cons_of_ne_nil hds.1
    obtain ⟨hd, hs⟩ := List.forall_mem_cons.1 hds.2
    have hmatch := delimited_match d s
    rw [Scan.token_digit hd, Scan.number_of_isDigit hs, List.take_length] at hmatch
    refine hmatch.congr_rest (.inl rfl) ?_ _
    rintro hquote
    rw [Option.some.inj hquote] at hd
    exact absurd hd (by decide)
  · -- the point after them
    exact (delimited_match '.' []).congr_rest (.inr rfl) (by decide) _

end Lexeme

namespace Token

variable {source : Text} {t : Token}

/-- **Literals, errors and what runs over lines are told by their texts**, and by what
follows them: every token of a source is a delimited lexeme, at the byte after those
before it. -/
theorem delimited_of_mem_ofSource (ht : t ∈ ofSource source) :
    ∃ before after, source = before ++ t.text ++ after ∧ t.start = before.byteSize
      ∧ t.toLexeme.Delimited after := by
  obtain ⟨before, l, after, hls, rfl⟩ := mem_place ht
  refine ⟨Lexeme.texts before, Lexeme.texts after, ?_, Nat.zero_add _,
    Lexeme.delimited_of_ofSource_eq hls⟩
  rw [← Lexeme.texts_ofSource source, hls, Lexeme.texts_append, Lexeme.texts_cons,
    List.append_assoc]

/-- A quote that a backslash before a line feed leaves open, behind a string in which a
backslash skips the first of four quotes. -/
theorem delimited_of_mem_ofSource_backslash :
    let source : Text := ['"', '"', '"', '\\', '"', '"', '"', '"', '\'', '\\', '\n']
    (⟨⟨.unterminatedChar, ['\'']⟩, 8⟩ : Token) ∈ ofSource source
    ∧ ∃ before after, source = before ++ ['\''] ++ after ∧ 8 = before.byteSize
        ∧ (⟨.unterminatedChar, ['\'']⟩ : Lexeme).Delimited after := by
  have ht : (⟨⟨.unterminatedChar, ['\'']⟩, 8⟩ : Token)
      ∈ ofSource ['"', '"', '"', '\\', '"', '"', '"', '"', '\'', '\\', '\n'] := by decide +kernel
  exact ⟨ht, delimited_of_mem_ofSource ht⟩

end Token

end EditorCore
