import EditorCore.Proofs.Document.Rows
import EditorCore.Proofs.Token.Reader

/-!
# The tokens before a line feed

The lexer reads a source in one go, and a token may run on over many lines. So
what comes after a line feed could change the tokens before it, and there is
one way in which it does: whether a triple-quoted string is closed is only
known where it is, and until then its token is an error that takes all the
rest.

That is all (`Scan.token_append`). Every other rule that could look past a line
feed – white space, block comments – gives the same kind whatever follows, and
every rule that takes less than the whole text up to a line feed has seen what
it needs. So the pieces of the tokens up to a line feed are those that lexing
the text up to there gives, but for an error that may be a triple-quoted string
(`Lexeme.map_ifClosed_cut_append`).
-/

namespace EditorCore

/-- **The kind, were the token closed further on**: an error could be a
triple-quoted string. -/
def TokenKind.ifClosed : TokenKind → TokenKind
  | error => multilineString
  | kind => kind

/-- No number is an error. -/
theorem TokenKind.ifClosed_eq_number {kind : TokenKind} :
    kind.ifClosed = .number ↔ kind = .number := by
  cases kind <;> decide

namespace Text

variable {t : Text} {c : Char}

/-- A text ends with a line feed. -/
def Ended (t : Text) : Prop := t.getLast? = some '\n'

theorem Ended.ne_nil (h : t.Ended) : t ≠ [] := by
  rintro rfl
  exact absurd h nofun

theorem Ended.tail (h : Ended (c :: t)) (ht : t ≠ []) : t.Ended := by
  obtain ⟨d, u, rfl⟩ := List.exists_cons_of_ne_nil ht
  rwa [Ended, List.getLast?_cons_cons] at h

/-- Before the line feed that ends a text comes a text that ends with it. -/
theorem Ended.of_cons (h : Ended (c :: t)) (hc : c ≠ '\n') : t.Ended := by
  refine h.tail ?_
  rintro rfl
  exact hc (Option.some.inj h)

/-- What follows the first character of such a text is one again, or nothing. -/
theorem Ended.rest (h : Ended (c :: t)) : t = [] ∨ Ended t :=
  (em (t = [])).imp_right h.tail

theorem Ended.drop (h : t.Ended) {n : Nat} (hn : n < t.length) : Ended (t.drop n) := by
  rw [Ended, List.getLast?_drop, if_neg (Nat.not_le.2 hn), h]

/-- A text that ends with a line feed and starts like another character does so
by itself. -/
theorem Ended.exists_of_append_eq {r s : Text} (h : t.Ended) (hc : c ≠ '\n')
    (heq : t ++ r = c :: s) : ∃ u, t = c :: u ∧ Ended u ∧ u ++ r = s := by
  obtain ⟨d, u, rfl⟩ := List.exists_cons_of_ne_nil h.ne_nil
  rw [List.cons_append, List.cons.injEq] at heq
  obtain ⟨rfl, rfl⟩ := heq
  exact ⟨u, rfl, h.of_cons hc, rfl⟩

end Text

namespace Scan

open Text

variable {t : Text} {c : Char}

/-! ## What a rule takes is there -/

theorem run_le (p : Char → Bool) (t : Text) : run p t ≤ t.length :=
  (List.takeWhile_sublist p).length_le

theorem blockComment_le (depth : Nat) (t : Text) : blockComment depth t ≤ t.length := by
  fun_induction blockComment depth t with
  | case1 depth t ih => simpa using ih
  | case2 t => simp
  | case3 t depth ih => simpa using ih
  | case4 depth c t _ _ ih => simpa using ih
  | case5 => exact Nat.le_refl 0

theorem tripleQuoted_le {n : Nat} (h : tripleQuoted t = some n) : n ≤ t.length := by
  fun_induction tripleQuoted t generalizing n with
  | case1 c t ih =>
    obtain ⟨m, hm, rfl⟩ := Option.map_eq_some_iff.1 h
    simpa using ih hm
  | case2 t =>
    obtain rfl := Option.some.inj h
    simp
  | case3 c t _ _ ih =>
    obtain ⟨m, hm, rfl⟩ := Option.map_eq_some_iff.1 h
    simpa using ih hm
  | case4 => exact absurd h.symm (Option.some_ne_none n)

theorem literal_le (quote : Char) (t : Text) : (literal quote t).1 ≤ t.length := by
  fun_induction literal quote t <;> simp_all

theorem decimal_le (t : Text) : decimal t ≤ t.length := by
  have hwhole := run_le Char.isDigit t
  unfold decimal
  dsimp only
  split
  · rename_i fraction hdrop
    have hlen := congrArg List.length hdrop
    have hfraction := run_le Char.isDigit fraction
    rw [List.length_drop, List.length_cons] at hlen
    omega
  · exact hwhole

theorem number_le (c : Char) (t : Text) : number c t ≤ t.length := by
  unfold number
  split
  · simpa using run_le isHexDigit _
  · exact decimal_le t

/-- **A token takes no more than there is.** -/
theorem token_le (c : Char) (t : Text) : (token c t).2 ≤ t.length := by
  unfold token
  split_ifs
  · exact run_le _ t
  · exact run_le _ t
  · exact run_le _ t
  · exact run_le _ t
  · exact run_le _ t
  · exact number_le c t
  · unfold stringLiteral
    split
    · rename_i body
      split
      · rename_i n hn
        simpa using tripleQuoted_le hn
      · exact Nat.le_refl _
    · exact literal_le '"' t
  · exact literal_le '\'' t
  · rename_i hhead
    rw [Bool.and_eq_true, decide_eq_true_eq, decide_eq_true_eq] at hhead
    obtain ⟨u, rfl⟩ := List.head?_eq_some_iff.1 hhead.2
    simpa using blockComment_le 0 u
  · exact Nat.zero_le _

/-! ## Rules that stop at a line feed -/

section Newline

variable {p : Char → Bool}

/-- What does not go over a line feed is the same whatever follows it. -/
theorem takeWhile_newline (hp : p '\n' = false) (t r : Text) :
    (t ++ '\n' :: r).takeWhile p = t.takeWhile p := by
  have hstop : ('\n' :: r).takeWhile p = [] :=
    List.takeWhile_cons_of_neg (Bool.eq_false_iff.1 hp)
  rw [List.takeWhile_append, hstop, List.append_nil]
  split_ifs with hall
  · exact ((List.takeWhile_prefix p).eq_of_length hall).symm
  · rfl

theorem run_newline (hp : p '\n' = false) (t r : Text) : run p (t ++ '\n' :: r) = run p t := by
  rw [run, run, takeWhile_newline hp]

theorem literal_cons {quote : Char} (hc : c ≠ '\\') (t : Text) :
    literal quote (c :: t)
      = if c = quote then (1, true)
        else if isLineEnd c then (0, false)
        else ((literal quote t).1 + 1, (literal quote t).2) := by
  rw [literal.eq_3 _ _ _ fun _ _ h => absurd h hc, decide_eq_false hc, Bool.false_or]

/-- **A literal is read within its line**, where neither a line feed nor a
backslash closes it. -/
theorem literal_newline {quote : Char} (hline : quote ≠ '\n') (hskip : quote ≠ '\\')
    (t r : Text) : literal quote (t ++ '\n' :: r) = literal quote t := by
  induction t using literal.induct quote with
  | case1 =>
    rw [List.nil_append, literal_cons (by decide), if_neg hline.symm]
    rfl
  | case2 t => rfl
  | case3 c t hc n closed hrest ih =>
    rw [List.cons_append, List.cons_append, literal, if_neg hc, literal, if_neg hc, ih]
  | case4 t hnot =>
    rw [List.cons_append, literal_cons hskip, literal_cons hskip, if_pos rfl, if_pos rfl]
  | case5 c t hnot hquote hend =>
    by_cases hc : c = '\\'
    · -- a backslash that has no character of the text to take along
      subst hc
      cases t with
      | nil => exact (if_neg hquote).symm
      | cons d u => exact absurd rfl (hnot d u rfl)
    · rw [decide_eq_false hc, Bool.false_or] at hend
      rw [List.cons_append, literal_cons hc, literal_cons hc, if_neg hquote, if_neg hquote,
        if_pos hend, if_pos hend]
  | case6 c t hnot hquote hend n closed hrest ih =>
    have hc : c ≠ '\\' := fun h => hend (by rw [h]; rfl)
    rw [decide_eq_false hc, Bool.false_or] at hend
    rw [List.cons_append, literal_cons hc, literal_cons hc, ih]

theorem decimal_newline (t r : Text) : decimal (t ++ '\n' :: r) = decimal t := by
  unfold decimal
  dsimp only
  rw [run_newline rfl, List.drop_append_of_le_length (run_le _ t)]
  generalize List.drop (run Char.isDigit t) t = u
  cases u with
  | nil => rfl
  | cons d u =>
    by_cases hpoint : d = '.'
    · subst hpoint
      show run _ t + 1 + run _ (u ++ '\n' :: r) = run _ t + 1 + run _ u
      rw [run_newline rfl]
    · rw [List.cons_append]
      split
      · rename_i fraction hfraction
        exact absurd (List.cons.inj hfraction).1 hpoint
      · split
        · rename_i fraction hfraction
          exact absurd (List.cons.inj hfraction).1 hpoint
        · rfl

theorem number_newline (c : Char) (t r : Text) : number c (t ++ '\n' :: r) = number c t := by
  by_cases hx : c = '0' ∧ ∃ digits, t = 'x' :: digits
  · obtain ⟨rfl, digits, rfl⟩ := hx
    exact congrArg (· + 1) (run_newline (p := isHexDigit) rfl digits r)
  · rw [number.eq_2 _ _ fun digits hc ht => hx ⟨hc, digits, ht⟩, number.eq_2, decimal_newline]
    intro digits hc ht
    cases t with
    | nil => exact absurd (List.cons.inj ht).1 (by decide)
    | cons d u => exact hx ⟨hc, u, by rw [(List.cons.inj ht).1]⟩

theorem head?_newline {t : Text} (hc : c ≠ '\n') (r : Text) :
    (t ++ '\n' :: r).head? = some c ↔ t.head? = some c := by
  cases t with
  | nil => exact ⟨fun h => absurd (Option.some.inj h).symm hc, nofun⟩
  | cons d u => exact Iff.rfl

/-- **A token that no line feed may be part of is read within its line.** Blanks,
strings and block comments are what is left. -/
theorem token_newline (hspace : ¬ isSpace c) (hquote : c ≠ '"')
    (hopen : ¬ (c = '{' ∧ t.head? = some '-')) (r : Text) :
    token c (t ++ '\n' :: r) = token c t := by
  have hopen' : ¬ (decide (c = '{') && decide (t.head? = some '-')) := by
    rwa [Bool.and_eq_true, decide_eq_true_eq, decide_eq_true_eq]
  unfold token
  simp only [head?_newline (show '-' ≠ '\n' by decide)]
  rw [if_neg hspace, if_neg hspace, if_neg hquote, if_neg hquote, if_neg hopen', if_neg hopen']
  split_ifs
  · rw [run_newline rfl]
  · rw [run_newline rfl]
  · rw [takeWhile_newline rfl, run_newline rfl]
  · rw [run_newline rfl]
  · rw [number_newline]
  · rw [charLiteral, charLiteral, literal_newline (by decide) (by decide)]
  · rfl

end Newline

/-! ## Rules that run on -/

theorem blockComment_pos (depth : Nat) (c : Char) (t : Text) :
    0 < blockComment depth (c :: t) := by
  unfold blockComment
  split
  · exact Nat.succ_pos _
  · split <;> exact Nat.succ_pos _
  · exact Nat.succ_pos _
  · exact absurd ‹_› (List.cons_ne_nil c t)

/-- **A block comment that is closed within a text stays closed there**; one that
is not takes all of the text, whatever follows. -/
theorem blockComment_append (depth : Nat) (t r : Text) :
    blockComment depth (t ++ r) = blockComment depth t
      ∨ blockComment depth t = t.length ∧ t.length ≤ blockComment depth (t ++ r) := by
  fun_induction blockComment depth t with
  | case1 depth t ih =>
    rw [List.cons_append, List.cons_append, blockComment, List.length_cons, List.length_cons]
    omega
  | case2 t => exact .inl rfl
  | case3 t depth ih =>
    rw [List.cons_append, List.cons_append, blockComment, List.length_cons, List.length_cons]
    omega
  | case4 depth c t hopen hclose ih =>
    cases t with
    | nil => exact .inr ⟨rfl, blockComment_pos depth c r⟩
    | cons d t =>
      -- both characters of a delimiter would be characters of this text
      have hstep : blockComment depth (c :: d :: (t ++ r))
          = blockComment depth (d :: (t ++ r)) + 1 :=
        blockComment.eq_4 _ _ _ (fun u hc hu => hopen t hc (by rw [(List.cons.inj hu).1]))
          (fun u hc hu => hclose t hc (by rw [(List.cons.inj hu).1]))
      rw [List.cons_append] at ih
      rw [List.cons_append, List.cons_append, hstep, List.length_cons]
      omega
  | case5 => exact .inr ⟨rfl, Nat.zero_le _⟩

/-- **A triple-quoted string that is closed before a line feed stays closed
there**; one that is not takes all up to it, closed or not. -/
theorem tripleQuoted_append (h : t = [] ∨ Ended t) (r : Text) :
    (∀ n, tripleQuoted t = some n → tripleQuoted (t ++ r) = some n)
      ∧ ∀ n, tripleQuoted t = none → tripleQuoted (t ++ r) = some n → t.length ≤ n := by
  fun_induction tripleQuoted t with
  | case1 c t ih =>
    have hrest : t = [] ∨ Ended t :=
      (h.resolve_left (List.cons_ne_nil _ _)).of_cons (by decide) |>.rest
    obtain ⟨hclosed, hopen⟩ := ih hrest
    rw [List.cons_append, List.cons_append, tripleQuoted]
    constructor
    · intro n hn
      obtain ⟨m, hm, rfl⟩ := Option.map_eq_some_iff.1 hn
      rw [hclosed m hm, Option.map_some]
    · intro n hn happend
      obtain ⟨m, hm, rfl⟩ := Option.map_eq_some_iff.1 happend
      exact Nat.add_le_add_right (hopen m (Option.map_eq_none_iff.1 hn) hm) 2
  | case2 t => exact ⟨fun n hn => hn, fun n hn => absurd hn nofun⟩
  | case3 c t hskip hclose ih =>
    have hended := h.resolve_left (List.cons_ne_nil _ _)
    -- neither rule above applies to the longer text, for it would to this one
    have hstep : tripleQuoted (c :: (t ++ r)) = (tripleQuoted (t ++ r)).map (· + 1) := by
      refine tripleQuoted.eq_3 _ _ (fun d u hc hu => ?_) (fun u hc hu => ?_)
      · obtain ⟨e, v, rfl⟩ := List.exists_cons_of_ne_nil (hended.of_cons (hc ▸ by decide)).ne_nil
        exact hskip e v hc rfl
      · obtain ⟨v, rfl, hv, hvr⟩ :=
          (hended.of_cons (hc ▸ by decide)).exists_of_append_eq (by decide) hu
        obtain ⟨w, rfl, -, -⟩ := hv.exists_of_append_eq (by decide) hvr
        exact hclose w hc rfl
    obtain ⟨hclosed, hopen⟩ := ih hended.rest
    rw [List.cons_append, hstep]
    constructor
    · intro n hn
      obtain ⟨m, hm, rfl⟩ := Option.map_eq_some_iff.1 hn
      rw [hclosed m hm, Option.map_some]
    · intro n hn happend
      obtain ⟨m, hm, rfl⟩ := Option.map_eq_some_iff.1 happend
      exact Nat.add_le_add_right (hopen m (Option.map_eq_none_iff.1 hn) hm) 1
  | case4 => exact ⟨fun n hn => absurd hn nofun, fun n _ _ => Nat.zero_le n⟩

/-! ## One token -/

/-- **A token that takes a whole text takes no less of a longer one**, and the
two differ in kind as an error and a triple-quoted string may. -/
structure RunsOn (t : Text) (short long : TokenKind × Nat) : Prop where
  /-- The shorter text is taken whole. -/
  all : short.2 = t.length
  /-- No less is taken of the longer one. -/
  further : t.length ≤ long.2
  /-- Neither token is a number, which might be parted. -/
  not_number : short.1 ≠ .number
  /-- The kinds agree, were both closed. -/
  kind : long.1.ifClosed = short.1.ifClosed

theorem stringLiteral_append (h : Ended t) (r : Text) :
    stringLiteral (t ++ r) = stringLiteral t
      ∨ RunsOn t (stringLiteral t) (stringLiteral (t ++ r)) := by
  by_cases hopen : ∃ body, t = '"' :: '"' :: body
  · obtain ⟨body, rfl⟩ := hopen
    obtain ⟨hclosed, hlater⟩ := tripleQuoted_append (h.of_cons (by decide)).rest r
    rw [List.cons_append, List.cons_append, stringLiteral, stringLiteral]
    cases hbody : tripleQuoted body with
    | some n => exact .inl (by rw [hclosed n hbody])
    | none =>
      right
      cases happend : tripleQuoted (body ++ r) with
      | none => exact ⟨rfl, by simp, nofun, rfl⟩
      | some n => exact ⟨rfl, Nat.add_le_add_right (hlater n hbody happend) 2, nofun, rfl⟩
  · have hopen' : ¬ ∃ body, t ++ r = '"' :: '"' :: body := by
      rintro ⟨body, hbody⟩
      obtain ⟨u, rfl, hu, hbody⟩ := h.exists_of_append_eq (by decide) hbody
      obtain ⟨v, rfl, -, -⟩ := hu.exists_of_append_eq (by decide) hbody
      exact hopen ⟨v, rfl⟩
    left
    rw [stringLiteral.eq_2 _ fun body hbody => hopen ⟨body, hbody⟩,
      stringLiteral.eq_2 _ fun body hbody => hopen' ⟨body, hbody⟩]
    obtain ⟨u, rfl⟩ := List.getLast?_eq_some_iff.1 h
    rw [List.append_assoc, List.singleton_append, literal_newline (by decide) (by decide),
      literal_newline (by decide) (by decide)]

/-- **What follows a line feed leaves a token before it as it is**, unless the
token takes all up to there. -/
theorem token_append (h : Ended (c :: t)) (r : Text) :
    token c (t ++ r) = token c t ∨ RunsOn t (token c t) (token c (t ++ r)) := by
  by_cases hspace : isSpace c
  · -- blanks stop short of the line feed or go on after it
    have htoken (u : Text) : token c u = (.whitespace, run isSpace u) := if_pos hspace
    rw [htoken, htoken, run, run, List.takeWhile_append]
    split_ifs with hall
    · refine .inr ⟨hall, ?_, nofun, rfl⟩
      rw [List.length_append]
      exact Nat.le_add_right _ _
    · exact .inl rfl
  · have ht : Ended t := h.of_cons fun hc => hspace (hc ▸ rfl)
    by_cases hquote : c = '"'
    · subst hquote
      exact stringLiteral_append ht r
    by_cases hopen : c = '{' ∧ t.head? = some '-'
    · -- a comment is closed before the line feed or goes on after it
      obtain ⟨rfl, hhead⟩ := hopen
      obtain ⟨u, rfl⟩ := List.head?_eq_some_iff.1 hhead
      rw [List.cons_append, token_openComment, token_openComment]
      rcases blockComment_append 0 u r with hsame | ⟨hall, hfurther⟩
      · exact .inl (by rw [hsame])
      · exact .inr ⟨congrArg (· + 1) hall, Nat.add_le_add_right hfurther 1, nofun, rfl⟩
    · -- any other token is read within the line
      obtain ⟨u, rfl⟩ := List.getLast?_eq_some_iff.1 ht
      rw [head?_newline (by decide)] at hopen
      rw [List.append_assoc, List.singleton_append, token_newline hspace hquote hopen,
        token_newline hspace hquote hopen]
      exact .inl rfl

end Scan

namespace Lexeme

open Text

/-- The lexeme, were it closed further on. -/
def ifClosed (l : Lexeme) : Lexeme := ⟨l.kind.ifClosed, l.text⟩

theorem splitPoint_of_ne {l : Lexeme} (h : l.kind ≠ .number) : l.splitPoint = [l] :=
  if_neg fun hnumber => h hnumber.1

theorem ofSource_nil : ofSource [] = [] := by
  rw [ofSource, scan, List.flatMap_nil]

theorem ofSource_cons (c : Char) (t : Text) :
    ofSource (c :: t)
      = splitPoint ⟨(Scan.token c t).1, c :: t.take (Scan.token c t).2⟩
        ++ ofSource (t.drop (Scan.token c t).2) := by
  rw [ofSource, scan, List.flatMap_cons]
  rfl

theorem map_ifClosed_piece (kind : TokenKind) (t : Text) :
    (piece kind t).map ifClosed = piece kind.ifClosed t := by
  rw [piece, piece]
  split_ifs <;> rfl

/-- A cut that ends with the first lexeme is a piece of it. -/
theorem cut_cons_of_le {a b : Nat} {l : Lexeme} (hb : b ≤ l.text.length) (ls : List Lexeme) :
    cut a b (l :: ls) = piece l.kind ((l.text.take b).drop a) := by
  rw [cut, Nat.sub_eq_zero_of_le hb, cut_of_le (Nat.zero_le _), List.append_nil]

/-- **The pieces up to a line feed are those of the text up to there**, but for
an error that is closed further on. -/
theorem map_ifClosed_cut_append {t : Text} (h : t = [] ∨ Ended t) (r : Text) {a b : Nat}
    (hb : b ≤ t.length) :
    (cut a b (ofSource (t ++ r))).map ifClosed = (cut a b (ofSource t)).map ifClosed := by
  fun_induction scan t generalizing a b with
  | case1 => rw [cut_of_le (hb.trans (Nat.zero_le a)), cut_of_le (hb.trans (Nat.zero_le a))]
  | case2 c t kind n htoken ih =>
    have hended := h.resolve_left (List.cons_ne_nil c t)
    have hn : n ≤ t.length := by
      have hle := Scan.token_le c t
      rwa [htoken] at hle
    rw [List.cons_append, ofSource_cons, ofSource_cons, htoken]
    dsimp only
    rcases Scan.token_append hended r with hsame | hruns
    · -- the token is the same, and both texts go on after it
      have hdrop : t.drop n = [] ∨ Ended (t.drop n) := by
        rcases hn.eq_or_lt with rfl | hlt
        · exact .inl t.drop_length
        · exact .inr ((hended.tail (by rintro rfl; exact absurd hlt (Nat.not_lt_zero n))).drop hlt)
      rw [hsame, htoken]
      dsimp only
      rw [List.take_append_of_le_length hn, List.drop_append_of_le_length hn, cut_append,
        cut_append, List.map_append, List.map_append, texts_splitPoint, ih hdrop]
      rw [List.length_cons, List.length_take, List.length_drop, Nat.min_eq_left hn]
      rw [List.length_cons] at hb
      omega
    · -- the token takes all up to the line feed, and the cut is a piece of it
      obtain ⟨hall, hfurther, hnumber, hkind⟩ := hruns
      rw [htoken] at hall hnumber hkind
      dsimp only at hall hnumber hkind
      have hnumber' : (Scan.token c (t ++ r)).1 ≠ .number := by
        rwa [Ne, ← TokenKind.ifClosed_eq_number, hkind, TokenKind.ifClosed_eq_number]
      have hlength : b ≤ (c :: (t ++ r).take (Scan.token c (t ++ r)).2).length := by
        rw [List.length_cons, List.length_take, List.length_append]
        rw [List.length_cons] at hb
        omega
      have htake : (c :: (t ++ r).take (Scan.token c (t ++ r)).2).take b
          = (c :: t.take n).take b := by
        rw [hall, List.take_length, List.take_append, List.take_of_length_le hfurther]
        exact List.take_append_of_le_length hb
      rw [splitPoint_of_ne hnumber', splitPoint_of_ne hnumber, List.singleton_append,
        List.singleton_append, cut_cons_of_le hlength, cut_cons_of_le, map_ifClosed_piece,
        map_ifClosed_piece, hkind, htake]
      rwa [hall, List.take_length]

end Lexeme

end EditorCore
