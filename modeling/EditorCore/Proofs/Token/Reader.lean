import EditorCore.Proofs.Token.Bytes
import EditorCore.Token.Lexer

/-!
# Tokens tile the bytes of a source

Read byte by byte, a source gives its tokens one at a time. A **reader**
(`Reader`) stands at a byte of the source; it matches the token that starts
there, moves to the byte the match led to, and hands over the span between the
two. Where a number was matched together with the point after it, the reader
parts the span and keeps the second part for the next call.

Nothing in that says that spans fit together: where the next one starts is a
sum of byte counts, some of them found by scanning bytes, and a span is parted
one byte before its end whatever stands there. That they do is what is proved
here. The reader comes to an end, its spans are those of the lexer's tokens,
and they **tile** the source: none is empty, the first starts at byte 0, each
starts where the one before it stops, the last stops where the source does,
and every end lies between two characters (`Reader.yields_iff_tiles`).
-/

namespace EditorCore

/-! ## One token -/

/-- **A word is an identifier or reserved.** -/
theorem wordKind_cases (word : Text) :
    wordKind word = .lowerIdent ∨ (word, wordKind word) ∈ reservedWords := by
  unfold wordKind
  cases hlookup : reservedWords.lookup word with
  | none => exact .inl rfl
  | some kind =>
    obtain ⟨before, after, hsplit, -⟩ := List.lookup_eq_some_iff.1 hlookup
    exact .inr (hsplit ▸ List.mem_append_right _ List.mem_cons_self)

/-- What holds of an identifier and of every reserved word holds of all words. -/
theorem forall_wordKind {P : TokenKind → Prop} (hlower : P .lowerIdent)
    (hreserved : ∀ entry ∈ reservedWords, P entry.2) (word : Text) : P (wordKind word) := by
  rcases wordKind_cases word with h | h
  · rwa [h]
  · exact hreserved _ h

namespace Scan

/-- **The token that starts with `c`**: its kind and its size in bytes. The two
rules that scan bytes are given those after the opening delimiter. -/
def matched (c : Char) (t : Text) : TokenKind × Nat :=
  match c, t with
  | '{', '-' :: t => (.blockComment, 2 + ByteScan.blockComment 0 (Text.utf8 t))
  | '"', '"' :: '"' :: t =>
    match ByteScan.tripleQuoted (Text.utf8 t) with
    | some n => (.multilineString, 3 + n)
    | none => (.error, 3 + (Text.utf8 t).length)
  | _, _ => ((token c t).1, Text.byteSize (c :: t.take (token c t).2))

theorem token_openComment (t : Text) :
    token '{' ('-' :: t) = (.blockComment, blockComment 0 t + 1) := rfl

theorem token_openTriple (t : Text) :
    token '"' ('"' :: '"' :: t)
      = match tripleQuoted t with
        | some n => (.multilineString, n + 2)
        | none => (.error, t.length + 2) := rfl

/-- **The size of a token in bytes is that of its characters.** -/
theorem matched_eq (c : Char) (t : Text) :
    matched c t = ((token c t).1, Text.byteSize (c :: t.take (token c t).2)) := by
  fun_cases matched c t with
  | case1 t =>
    rw [token_openComment, List.take_succ_cons, ByteScan.blockComment_utf8, Text.byteSize_cons,
      Text.byteSize_cons, ← Nat.add_assoc]
    rfl
  | case2 t n hn =>
    rw [ByteScan.tripleQuoted_utf8, Option.map_eq_some_iff] at hn
    obtain ⟨m, hm, rfl⟩ := hn
    rw [token_openTriple, hm]
    dsimp only
    rw [List.take_succ_cons, List.take_succ_cons, Text.byteSize_cons, Text.byteSize_cons,
      Text.byteSize_cons, ← Nat.add_assoc, ← Nat.add_assoc]
    rfl
  | case3 t hn =>
    rw [ByteScan.tripleQuoted_utf8, Option.map_eq_none_iff] at hn
    rw [token_openTriple, hn]
    dsimp only
    rw [List.take_succ_cons, List.take_succ_cons, List.take_length, Text.byteSize_cons,
      Text.byteSize_cons, Text.byteSize_cons, Text.length_utf8, ← Nat.add_assoc, ← Nat.add_assoc]
    rfl
  | case4 => rfl

/-- No word is a number. -/
theorem wordKind_ne_number (word : Text) : wordKind word ≠ .number :=
  forall_wordKind (P := (· ≠ .number)) (by decide) (by decide) word

theorem punctuationKind_ne_number (c : Char) : punctuationKind c ≠ .number := by
  unfold punctuationKind
  split <;> exact nofun

theorem stringLiteral_ne_number (t : Text) : (stringLiteral t).1 ≠ .number := by
  unfold stringLiteral
  split
  · split <;> exact nofun
  · dsimp only
    split_ifs <;> exact nofun

theorem charLiteral_ne_number (t : Text) : (charLiteral t).1 ≠ .number := by
  unfold charLiteral
  dsimp only
  split_ifs <;> exact nofun

/-- **A number starts with a digit.** -/
theorem isDigit_of_number {c : Char} {t : Text} (h : (token c t).1 = .number) : c.isDigit := by
  unfold token at h
  split_ifs at h with h1 h2 h3 h4 h5 h6 h7 h8
  · exact absurd h (wordKind_ne_number _)
  · exact h6
  · exact absurd h (stringLiteral_ne_number t)
  · exact absurd h (charLiteral_ne_number t)
  · exact absurd h (punctuationKind_ne_number c)

end Scan

namespace Lexeme

/-! ## No lexeme is empty -/

/-- A longest match is a token with its text. -/
theorem exists_of_mem_scan {source : Text} {l : Lexeme} (hl : l ∈ scan source) :
    ∃ c t, l = ⟨(Scan.token c t).1, c :: t.take (Scan.token c t).2⟩ := by
  fun_induction scan source with
  | case1 => exact absurd hl List.not_mem_nil
  | case2 c t kind n htoken ih =>
    rcases List.mem_cons.1 hl with rfl | hl
    · exact ⟨c, t, by rw [htoken]⟩
    · exact ih hl

/-- **Before the point that ends a number there is a digit.** -/
theorem dropLast_ne_nil {c : Char} {t s : Text} (hkind : (Scan.token c t).1 = .number)
    (hlast : (c :: s).getLast? = some '.') : s ≠ [] := by
  rintro rfl
  obtain rfl : c = '.' := Option.some.inj hlast
  exact absurd (Scan.isDigit_of_number hkind) (by decide)

/-- **No lexeme is empty.** -/
theorem text_ne_nil_of_mem_ofSource {source : Text} {l : Lexeme} (hl : l ∈ ofSource source) :
    l.text ≠ [] := by
  obtain ⟨m, hm, hl⟩ := List.mem_flatMap.1 hl
  obtain ⟨c, t, rfl⟩ := exists_of_mem_scan hm
  unfold splitPoint at hl
  split_ifs at hl with hpoint
  · rcases List.mem_cons.1 hl with rfl | hl
    · obtain ⟨d, s, hs⟩ := List.exists_cons_of_ne_nil (dropLast_ne_nil hpoint.1 hpoint.2)
      dsimp only
      rw [hs, List.dropLast_cons_cons]
      exact List.cons_ne_nil _ _
    · rw [List.mem_singleton.1 hl]
      exact List.cons_ne_nil _ _
  · rw [List.mem_singleton.1 hl]
    exact List.cons_ne_nil _ _

end Lexeme

/-! ## Spans -/

/-- **A token as the bytes it takes.** -/
structure Span where
  kind : TokenKind
  start : UInt32
  stop : UInt32
  deriving DecidableEq, Repr

namespace Span

/-- The text of a span. -/
def text (source : Text) (s : Span) : Text :=
  (source.takeBytes s.stop.toNat).dropBytes s.start.toNat

end Span

/-- A byte of a text lies between two of its characters. -/
def Text.IsBoundary (t : Text) (byte : Nat) : Prop :=
  ∃ before after, t = before ++ after ∧ before.byteSize = byte

/-- **Spans tile a source.** -/
structure Span.Tiles (source : Text) (ss : List Span) : Prop where
  nonempty : ∀ s ∈ ss, s.start < s.stop
  /-- The first one starts the source. -/
  starts : ∀ s ∈ ss.head?, s.start = 0
  /-- Each starts where the one before it stops. -/
  adjacent : ss.IsChain fun s t => s.stop = t.start
  /-- The last one stops where the source does. -/
  stops : ∀ s ∈ ss.getLast?, s.stop.toNat = source.byteSize
  /-- They start and stop between characters. -/
  boundaries : ∀ s ∈ ss, source.IsBoundary s.start.toNat ∧ source.IsBoundary s.stop.toNat
  /-- Together they spell the source. -/
  spells : ss.flatMap (·.text source) = source

namespace Token

/-- The span of a token. -/
def span (t : Token) : Span := ⟨t.kind, .ofNat t.start, .ofNat t.stop⟩

theorem place_append (start : Nat) (ls ms : List Lexeme) :
    place start (ls ++ ms)
      = place start ls ++ place (start + (Lexeme.texts ls).byteSize) ms := by
  induction ls generalizing start with
  | nil => rfl
  | cons l ls ih =>
    rw [List.cons_append, place, place, ih, Lexeme.texts_cons, Text.byteSize_append,
      Nat.add_assoc]
    rfl

/-- **A token of a sequence** is one of its lexemes, at the size of those before
it. -/
theorem mem_place {start : Nat} {ls : List Lexeme} {t : Token} (ht : t ∈ place start ls) :
    ∃ before l after, ls = before ++ l :: after
      ∧ t = ⟨l, start + (Lexeme.texts before).byteSize⟩ := by
  induction ls generalizing start with
  | nil => exact absurd ht List.not_mem_nil
  | cons l ls ih =>
    rcases List.mem_cons.1 ht with rfl | ht
    · exact ⟨[], l, ls, rfl, rfl⟩
    · obtain ⟨before, m, after, rfl, rfl⟩ := ih ht
      refine ⟨l :: before, m, after, rfl, ?_⟩
      rw [Lexeme.texts_cons, Text.byteSize_append, Nat.add_assoc]

theorem flatMap_text_place (start : Nat) (ls : List Lexeme) :
    (place start ls).flatMap (·.text) = Lexeme.texts ls := by
  induction ls generalizing start with
  | nil => rfl
  | cons l ls ih => rw [place, List.flatMap_cons, ih, Lexeme.texts_cons]

/-- **A token parts the source** into what comes before it, its text, and what
comes after it. -/
theorem exists_of_mem_ofSource {source : Text} {t : Token} (ht : t ∈ ofSource source) :
    ∃ before after, source = before ++ t.text ++ after ∧ t.start = before.byteSize
      ∧ t.text ≠ [] := by
  obtain ⟨before, l, after, hls, rfl⟩ := mem_place ht
  refine ⟨Lexeme.texts before, Lexeme.texts after, ?_, Nat.zero_add _, ?_⟩
  · rw [← Lexeme.texts_ofSource source, hls, Lexeme.texts_append, Lexeme.texts_cons,
      List.append_assoc]
  · have hmem : l ∈ Lexeme.ofSource source := by
      rw [hls]
      exact List.mem_append_right _ List.mem_cons_self
    exact Lexeme.text_ne_nil_of_mem_ofSource hmem

/-- The ends of a token's span are those of the token, and its text too, as long
as the bytes of the source are words. -/
theorem span_of_mem_ofSource {source : Text} (h : source.byteSize < 2 ^ 32) {t : Token}
    (ht : t ∈ ofSource source) :
    t.span.start.toNat = t.start ∧ t.span.stop.toNat = t.stop ∧ t.span.text source = t.text := by
  obtain ⟨before, after, hsource, hstart, -⟩ := exists_of_mem_ofSource ht
  have hsize := congrArg Text.byteSize hsource
  rw [Text.byteSize_append, Text.byteSize_append] at hsize
  have hstop : t.stop = before.byteSize + t.text.byteSize := by rw [stop, hstart, size]
  have hstart' : t.span.start.toNat = t.start := UInt32.toNat_ofNat_of_lt' (by
    rw [hstart]
    exact Nat.lt_of_le_of_lt (by omega) h)
  have hstop' : t.span.stop.toNat = t.stop := UInt32.toNat_ofNat_of_lt' (by
    rw [hstop]
    exact Nat.lt_of_le_of_lt (by omega) h)
  refine ⟨hstart', hstop', ?_⟩
  have hbefore : t.start = source.byteAt before.length := by
    rw [hsource, List.append_assoc, Text.byteAt_length_append, hstart]
  have hafter : t.stop = source.byteAt (before.length + t.text.length) := by
    rw [hsource, ← List.length_append, Text.byteAt_length_append, Text.byteSize_append, hstop]
  have hlen := congrArg List.length hsource
  rw [List.length_append, List.length_append] at hlen
  rw [Span.text, hstart', hstop', hbefore, hafter,
    Text.dropBytes_takeBytes_byteAt (Nat.le_add_right _ _) (by omega)]
  conv_lhs => rw [hsource, ← List.length_append, List.take_left, List.drop_left]

/-- **The spans of the tokens tile the source.** -/
theorem tiles_ofSource {source : Text} (h : source.byteSize < 2 ^ 32) :
    Span.Tiles source ((ofSource source).map span) where
  nonempty s hs := by
    obtain ⟨t, ht, rfl⟩ := List.mem_map.1 hs
    obtain ⟨hstart, hstop, -⟩ := span_of_mem_ofSource h ht
    obtain ⟨before, after, -, -, hne⟩ := exists_of_mem_ofSource ht
    rw [UInt32.lt_iff_toNat_lt, hstart, hstop, stop]
    exact Nat.lt_add_of_pos_right (Text.measure_pos Char.utf8Size_pos hne)
  starts s hs := by
    rw [List.head?_map, Option.mem_def, Option.map_eq_some_iff] at hs
    obtain ⟨t, ht, rfl⟩ := hs
    unfold ofSource at ht
    cases hls : Lexeme.ofSource source with
    | nil =>
      rw [hls] at ht
      exact absurd ht nofun
    | cons l ls =>
      rw [hls] at ht
      obtain rfl := Option.some.inj ht
      rfl
  adjacent := by
    unfold ofSource
    generalize Lexeme.ofSource source = ls
    generalize 0 = start
    induction ls generalizing start with
    | nil => exact .nil
    | cons l ls ih =>
      have hrest := ih (start + l.text.byteSize)
      cases ls with
      | nil => exact .singleton _
      | cons m ls => exact .cons_cons rfl hrest
  stops s hs := by
    rw [List.getLast?_map, Option.mem_def, Option.map_eq_some_iff] at hs
    obtain ⟨t, ht, rfl⟩ := hs
    rw [(span_of_mem_ofSource h (List.mem_of_getLast? ht)).2.1]
    have hspell := Lexeme.texts_ofSource source
    unfold ofSource at ht
    rcases List.eq_nil_or_concat' (Lexeme.ofSource source) with hls | ⟨before, l, hls⟩
    · rw [hls] at ht
      exact absurd ht nofun
    · rw [hls, place_append, place, place, List.getLast?_concat, Option.some_inj] at ht
      rw [← hspell, hls, ← ht, Lexeme.texts_append, Lexeme.texts_cons, Lexeme.texts_nil,
        List.append_nil, Text.byteSize_append]
      exact congrArg (· + _) (Nat.zero_add _)
  boundaries s hs := by
    obtain ⟨t, ht, rfl⟩ := List.mem_map.1 hs
    obtain ⟨hstart, hstop, -⟩ := span_of_mem_ofSource h ht
    obtain ⟨before, after, hsource, hbefore, -⟩ := exists_of_mem_ofSource ht
    rw [hstart, hstop]
    refine ⟨⟨before, t.text ++ after, by rw [hsource, List.append_assoc], hbefore.symm⟩,
      before ++ t.text, after, hsource, ?_⟩
    rw [Text.byteSize_append, ← hbefore]
    rfl
  spells := by
    have htexts : ∀ t ∈ ofSource source, t.span.text source = t.text :=
      fun t ht => (span_of_mem_ofSource h ht).2.2
    rw [List.flatMap_map, List.flatMap_congr htexts, ofSource, flatMap_text_place,
      Lexeme.texts_ofSource]

end Token

/-! ## Reading -/

/-- **A reader**: the source, the byte up to which it is read, and spans already
found but not yet handed over. -/
structure Reader where
  source : Text
  pos : Nat
  pending : List Span

namespace Reader

/-- A reader at the start of a source. -/
def new (source : Text) : Reader := ⟨source, 0, []⟩

/-- **The next span**, unless the source is read. A number that was matched
together with the point after it is handed over without, and the point
next. -/
def next? (r : Reader) : Option (Span × Reader) :=
  match r.pending with
  | s :: pending => some (s, { r with pending })
  | [] =>
    match r.source.dropBytes r.pos with
    | [] => none
    | c :: t =>
      let (kind, size) := Scan.matched c t
      let stop := r.pos + size
      let text := (r.source.takeBytes stop).dropBytes r.pos
      if kind = .number ∧ text.getLast? = some '.' ∧ r.pos + 1 < stop then
        some (⟨.number, .ofNat r.pos, .ofNat (stop - 1)⟩,
          ⟨r.source, stop, [⟨.operator, .ofNat (stop - 1), .ofNat stop⟩]⟩)
      else some (⟨kind, .ofNat r.pos, .ofNat stop⟩, ⟨r.source, stop, []⟩)

/-- **What a reader hands over** until it has read its source. -/
inductive Yields : Reader → List Span → Prop
  | done {r : Reader} : r.next? = none → Yields r []
  | next {r r' : Reader} {s : Span} {ss : List Span} :
      r.next? = some (s, r') → Yields r' ss → Yields r (s :: ss)

/-- A reader hands over one sequence of spans. -/
theorem Yields.unique {r : Reader} {ss ts : List Span} (hs : r.Yields ss) (ht : r.Yields ts) :
    ss = ts := by
  induction hs generalizing ts with
  | done hnone =>
    cases ht with
    | done => rfl
    | next hnext => exact absurd (hnone.symm.trans hnext) nofun
  | next hnext _ ih =>
    cases ht with
    | done hnone => exact absurd (hnone.symm.trans hnext) nofun
    | next hnext' hrest =>
      obtain ⟨rfl, rfl⟩ := Prod.mk.inj (Option.some.inj (hnext.symm.trans hnext'))
      rw [ih hrest]

/-- **Behind a part of its source, a reader matches the token that starts the
rest**, and looks at its text for a point to part. -/
theorem next?_append (pre : Text) (c : Char) (t : Text) :
    next? ⟨pre ++ c :: t, pre.byteSize, []⟩
      = let text := c :: t.take (Scan.token c t).2
        let stop := pre.byteSize + Text.byteSize text
        if (Scan.token c t).1 = .number ∧ text.getLast? = some '.' ∧ pre.byteSize + 1 < stop then
          some (⟨.number, .ofNat pre.byteSize, .ofNat (stop - 1)⟩,
            ⟨pre ++ c :: t, stop, [⟨.operator, .ofNat (stop - 1), .ofNat stop⟩]⟩)
        else some (⟨(Scan.token c t).1, .ofNat pre.byteSize, .ofNat stop⟩,
          ⟨pre ++ c :: t, stop, []⟩) := by
  have hrest : (pre ++ c :: t).dropBytes pre.byteSize = c :: t := by
    rw [← Text.byteAt_length_append pre (c :: t), Text.dropBytes_byteAt (by simp),
      List.drop_left]
  have hmatched := Scan.matched_eq c t
  have hsplit : pre ++ c :: t
      = pre ++ c :: t.take (Scan.token c t).2 ++ t.drop (Scan.token c t).2 := by simp
  generalize hw : t.take (Scan.token c t).2 = w at hmatched hsplit ⊢
  have htext : ((pre ++ c :: t).takeBytes (pre.byteSize + Text.byteSize (c :: w))).dropBytes
      pre.byteSize = c :: w := by
    rw [hsplit, ← Text.byteSize_append, ← Text.byteAt_length_append (pre ++ c :: w),
      Text.takeBytes_byteAt (by simp), List.take_left, ← Text.byteAt_length_append pre (c :: w),
      Text.dropBytes_byteAt (by simp), List.drop_left]
  unfold next?
  dsimp only
  rw [hrest]
  dsimp only
  rw [hmatched]
  dsimp only
  rw [htext]

/-- **One match** hands over the spans of the lexemes it is parted into, and
leaves the reader behind it. -/
theorem yields_match {pre : Text} {c : Char} {t : Text} {ss : List Span}
    (h : Yields ⟨pre ++ c :: t, (pre ++ c :: t.take (Scan.token c t).2).byteSize, []⟩ ss) :
    Yields ⟨pre ++ c :: t, pre.byteSize, []⟩
      ((Token.place pre.byteSize
          (Lexeme.splitPoint ⟨(Scan.token c t).1, c :: t.take (Scan.token c t).2⟩)).map Token.span
        ++ ss) := by
  have hnext := next?_append pre c t
  dsimp only at hnext
  rw [Text.byteSize_append] at h
  generalize t.take (Scan.token c t).2 = w at *
  by_cases hpoint : (Scan.token c t).1 = .number ∧ (c :: w).getLast? = some '.'
  · -- the point is the last byte, and a digit comes before it
    obtain ⟨digits, hdigits⟩ := List.getLast?_eq_some_iff.1 hpoint.2
    have hdrop : (c :: w).dropLast = digits := by rw [hdigits, List.dropLast_concat]
    have hsize : Text.byteSize (c :: w) = Text.byteSize digits + 1 := by
      rw [hdigits, Text.byteSize_append]
      rfl
    have hpos : 0 < Text.byteSize digits := by
      refine Text.measure_pos Char.utf8Size_pos ?_
      obtain ⟨d, s, rfl⟩ := List.exists_cons_of_ne_nil (Lexeme.dropLast_ne_nil hpoint.1 hpoint.2)
      rw [← hdrop, List.dropLast_cons_cons]
      exact List.cons_ne_nil _ _
    rw [if_pos ⟨hpoint.1, hpoint.2, by omega⟩, hsize] at hnext
    rw [hsize] at h
    rw [Lexeme.splitPoint, if_pos hpoint, hdrop]
    exact .next hnext (.next rfl h)
  · rw [if_neg fun hc => hpoint ⟨hc.1, hc.2.1⟩] at hnext
    rw [Lexeme.splitPoint, if_neg hpoint]
    exact .next hnext h

/-- **A reader behind a part of its source** hands over the spans of the rest. -/
theorem yields_scan (pre rest : Text) :
    Yields ⟨pre ++ rest, pre.byteSize, []⟩
      ((Token.place pre.byteSize ((Lexeme.scan rest).flatMap Lexeme.splitPoint)).map
        Token.span) := by
  fun_induction Lexeme.scan rest generalizing pre with
  | case1 =>
    refine .done ?_
    unfold next?
    dsimp only
    rw [List.append_nil, ← Text.byteAt_length, Text.dropBytes_byteAt (Nat.le_refl _),
      List.drop_length]
  | case2 c t kind n htoken ih =>
    have hrest := ih (pre ++ c :: t.take n)
    have hmatch := @yields_match pre c t ((Token.place (pre ++ c :: t.take n).byteSize
      ((Lexeme.scan (t.drop n)).flatMap Lexeme.splitPoint)).map Token.span)
    rw [htoken] at hmatch
    rw [List.append_assoc, List.cons_append, List.take_append_drop] at hrest
    rw [List.flatMap_cons, Token.place_append, List.map_append, Lexeme.texts_splitPoint,
      ← Text.byteSize_append]
    exact hmatch hrest

/-- **A reader hands over the lexer's tokens, and they tile the source.** So the
texts of the spans make up the source, and each of them is the text of its
token. -/
theorem yields_iff_tiles (source : Text) (h : source.byteSize < 2 ^ 32) :
    (∀ ss, (new source).Yields ss ↔ ss = (Token.ofSource source).map Token.span)
    ∧ Span.Tiles source ((Token.ofSource source).map Token.span)
    ∧ ∀ t ∈ Token.ofSource source, t.span.start.toNat = t.start ∧ t.span.stop.toNat = t.stop
        ∧ t.span.text source = t.text := by
  have hyields : (new source).Yields ((Token.ofSource source).map Token.span) :=
    yields_scan [] source
  refine ⟨fun ss => ⟨fun hss => hss.unique hyields, ?_⟩, Token.tiles_ofSource h,
    fun t ht => Token.span_of_mem_ofSource h ht⟩
  rintro rfl
  exact hyields

/-- A number with its point parted, a triple-quoted string in which a backslash
skips a character of two bytes, and a comment that never ends. -/
theorem yields_iff_tiles_delimiters :
    let source : Text := ['1', '.', '"', '"', '"', '\\', 'é', '"', '"', '"', '{', '-', '€']
    source.byteSize < 2 ^ 32
    ∧ (new source).Yields [⟨.number, 0, 1⟩, ⟨.operator, 1, 2⟩, ⟨.multilineString, 2, 11⟩,
        ⟨.blockComment, 11, 16⟩] :=
  ⟨by decide, ((yields_iff_tiles _ (by decide)).1 _).2 (by decide +kernel)⟩

end Reader

end EditorCore
