import EditorCore.Proofs.Document.Rows

/-!
# The tokens of a line tile it

A document is what an editor asks for tokens, and it may ask at any column.
So the tokens of a line have to leave no gap and no overlap: the first one
starts at column 0, each starts where the one before it ends, and the last
one ends where the line does (`LineToken.Tiles`). And they have to be the
lexer's tokens, neither more nor fewer: a line holds one piece of every
token that shares a byte with it, and that piece is what they share
(`Lexeme.IsPartOf`).

Columns are words, so all this is said of texts whose bytes a word can
count.
-/

namespace EditorCore

/-! ## Tokens and the bytes of a line -/

namespace Token

/-- A token shares a byte with the bytes from `lo` to `hi`. -/
def Meets (lo hi : Nat) (t : Token) : Prop := max t.start lo < min t.stop hi

instance (lo hi : Nat) : DecidablePred (Meets lo hi) :=
  fun _ => inferInstanceAs (Decidable (_ < _))

end Token

namespace Lexeme

/-- **A lexeme is the part of a token** between the bytes `lo` and `hi` of
the source. -/
def IsPartOf (source : Text) (lo hi : Nat) (p : Lexeme) (t : Token) : Prop :=
  p.kind = t.kind
    ∧ p.text = (source.takeBytes (min t.stop hi)).dropBytes (max t.start lo)

end Lexeme

namespace Text

/-- What a range of a text has in common with a part of it. -/
theorem drop_take_append (pre t post : Text) (a b : Nat) :
    ((pre ++ t ++ post).take (min (pre.length + t.length) b)).drop (max pre.length a)
      = (t.take (b - pre.length)).drop (a - pre.length) := by
  rcases Nat.le_total b pre.length with hb | hb
  · rw [Nat.sub_eq_zero_of_le hb, List.take_zero, List.drop_nil, List.drop_eq_nil_iff,
      List.length_take]
    omega
  · obtain ⟨k, rfl⟩ := Nat.exists_eq_add_of_le hb
    rw [Nat.add_min_add_left, Nat.add_sub_cancel_left, List.append_assoc,
      List.take_length_add_append, List.take_append_of_le_length (Nat.min_le_left _ _),
      Nat.min_comm, ← List.take_take, List.take_length]
    rw [show max pre.length a = pre.length + (a - pre.length) by omega,
      List.drop_length_add_append]

end Text

namespace Lexeme

/-- **A cut holds the part of every token that meets it**, in order. The
lexemes are those of the source from `pre` on. -/
theorem forall₂_cut {source : Text} (pre : Text) {ls : List Lexeme}
    (h : pre ++ texts ls = source) (a b : Nat) :
    List.Forall₂ (IsPartOf source (source.byteAt a) (source.byteAt b))
      (cut (a - pre.length) (b - pre.length) ls)
      ((Token.place pre.byteSize ls).filter
        (Token.Meets (source.byteAt a) (source.byteAt b))) := by
  induction ls generalizing pre with
  | nil => exact .nil
  | cons l ls ih =>
    have hsource : pre ++ l.text ++ texts ls = source := by
      rw [← h, texts_cons, List.append_assoc]
    have hlen : pre.length + l.text.length ≤ source.length := by
      rw [← hsource, List.length_append, List.length_append]
      exact Nat.le_add_right _ _
    -- the ends of the token are the bytes of two characters of the source,
    -- so sizes compare as the characters do
    have hstart : pre.byteSize = source.byteAt pre.length := by
      rw [← hsource, List.append_assoc, Text.byteAt_length_append]
    have hstop : pre.byteSize + l.text.byteSize
        = source.byteAt (pre.length + l.text.length) := by
      rw [← hsource, ← List.length_append, Text.byteAt_length_append, Text.byteSize_append]
    have hmax : max pre.byteSize (source.byteAt a)
        = source.byteAt (max pre.length a) := by
      rw [hstart]
      exact (source.byteAt_mono.map_max).symm
    have hmin : min (pre.byteSize + l.text.byteSize) (source.byteAt b)
        = source.byteAt (min (pre.length + l.text.length) b) := by
      rw [hstop]
      exact (source.byteAt_mono.map_min).symm
    have hrest := ih (pre ++ l.text) hsource
    rw [List.length_append, Text.byteSize_append, ← Nat.sub_sub, ← Nat.sub_sub] at hrest
    have hpart := Text.drop_take_append pre l.text (texts ls) a b
    rw [hsource] at hpart
    rw [cut, Token.place]
    by_cases hlt : max pre.length a < min (pre.length + l.text.length) b
    · have hmeets : Token.Meets (source.byteAt a) (source.byteAt b)
          ⟨l, pre.byteSize⟩ := by
        show max pre.byteSize _ < min (pre.byteSize + l.text.byteSize) _
        rw [hmax, hmin, Text.byteAt_lt_iff (by omega)]
        exact hlt
      have hne : (l.text.take (b - pre.length)).drop (a - pre.length) ≠ [] := by
        rw [Ne, List.drop_eq_nil_iff, List.length_take]
        omega
      rw [piece_of_ne_nil l.kind hne, List.filter_cons_of_pos (by simpa using hmeets)]
      refine .cons ⟨rfl, ?_⟩ hrest
      show _ = Text.dropBytes
        (source.takeBytes (min (pre.byteSize + l.text.byteSize) _)) (max pre.byteSize _)
      rw [hmax, hmin, Text.dropBytes_takeBytes_byteAt hlt.le (by omega), hpart]
    · have hmeets : ¬ Token.Meets (source.byteAt a) (source.byteAt b)
          ⟨l, pre.byteSize⟩ := by
        show ¬ max pre.byteSize _ < min (pre.byteSize + l.text.byteSize) _
        rw [hmax, hmin, Nat.not_lt]
        exact source.byteAt_mono (Nat.le_of_not_lt hlt)
      have hnil : (l.text.take (b - pre.length)).drop (a - pre.length) = [] := by
        rw [List.drop_eq_nil_iff, List.length_take]
        omega
      rw [hnil, piece_nil, List.nil_append, List.filter_cons_of_neg (by simpa using hmeets)]
      exact hrest

/-! ## Columns along a row -/

theorem placeRow_append (column : Nat) (ls ms : List Lexeme) :
    placeRow column (ls ++ ms)
      = placeRow column ls ++ placeRow (column + (texts ls).width) ms := by
  induction ls generalizing column with
  | nil => rfl
  | cons l ls ih =>
    rw [List.cons_append, placeRow, placeRow, ih, texts_cons, Text.width_append, Nat.add_assoc]
    rfl

/-- **A token of a row** is one of its lexemes, after the width of those
before it. -/
theorem mem_placeRow {column : Nat} {ls : List Lexeme} {t : LineToken}
    (ht : t ∈ placeRow column ls) :
    ∃ before l after, ls = before ++ l :: after ∧
      t = ⟨l.kind, l.text, .ofNat (column + (texts before).width),
        .ofNat (column + (texts before).width + l.text.width)⟩ := by
  induction ls generalizing column with
  | nil => exact absurd ht List.not_mem_nil
  | cons l ls ih =>
    rcases List.mem_cons.1 ht with rfl | ht
    · exact ⟨[], l, ls, rfl, rfl⟩
    · obtain ⟨before, m, after, rfl, rfl⟩ := ih ht
      refine ⟨l :: before, m, after, rfl, ?_⟩
      rw [texts_cons, Text.width_append, Nat.add_assoc]

end Lexeme

namespace LineToken

/-- The lexeme a token is a piece of, cut to its line. -/
def lexeme (t : LineToken) : Lexeme := ⟨t.kind, t.text⟩

/-- **Tokens tile a line.** -/
structure Tiles (line : Text) (ts : List LineToken) : Prop where
  /-- No token is empty, neither as a text nor in columns. -/
  nonempty : ∀ t ∈ ts, t.text ≠ [] ∧ t.start < t.stop
  /-- The first one starts the line. -/
  starts : ∀ t ∈ ts.head?, t.start = 0
  /-- Each starts where the one before it ends. -/
  adjacent : ts.IsChain fun t u => t.stop = u.start
  /-- The last one ends the line. -/
  stops : ∀ t ∈ ts.getLast?, t.stop.toNat = line.width
  /-- Together they spell the line. -/
  spells : ts.flatMap (·.text) = line
  /-- Each is the text of the line between its columns. -/
  slices : ∀ t ∈ ts, line.slice t.start.toNat t.stop.toNat = t.text

end LineToken

namespace Lexeme

@[simp] theorem map_lexeme_placeRow (column : Nat) (ls : List Lexeme) :
    (placeRow column ls).map LineToken.lexeme = ls := by
  induction ls generalizing column with
  | nil => rfl
  | cons l ls ih => exact congrArg (l :: ·) (ih _)

/-- **A row of lexemes that are not empty tiles what it spells.** -/
theorem tiles_placeRow {row : List Lexeme} (hne : ∀ l ∈ row, l.text ≠ [])
    (hw : (texts row).width < UInt32.size) :
    LineToken.Tiles (texts row) (placeRow 0 row) where
  nonempty t ht := by
    obtain ⟨before, l, after, rfl, rfl⟩ := mem_placeRow ht
    have hl := hne l (by simp)
    have hpos := Text.width_pos hl
    rw [texts_append, texts_cons, Text.width_append, Text.width_append] at hw
    refine ⟨hl, UInt32.lt_iff_toNat_lt.2 ?_⟩
    rw [UInt32.toNat_ofNat_of_lt' (by omega), UInt32.toNat_ofNat_of_lt' (by omega)]
    omega
  starts t ht := by
    cases row with
    | nil => exact absurd ht (by simp [placeRow])
    | cons l row =>
      obtain rfl : _ = t := by simpa [placeRow] using ht
      rfl
  adjacent := by
    generalize 0 = column
    induction row generalizing column with
    | nil => exact .nil
    | cons l row ih =>
      have hrow := ih (fun m hm => hne m (List.mem_cons_of_mem l hm))
        (by rw [texts_cons, Text.width_append] at hw; omega) (column + l.text.width)
      cases row with
      | nil => exact .singleton _
      | cons m row => exact .cons_cons rfl hrow
  stops t ht := by
    rcases List.eq_nil_or_concat' row with rfl | ⟨before, l, rfl⟩
    · exact absurd ht (by simp [placeRow])
    · rw [placeRow_append, placeRow, placeRow, List.getLast?_concat, Option.mem_some_iff] at ht
      subst ht
      rw [texts_append, texts_cons, texts_nil, List.append_nil, Text.width_append] at hw ⊢
      rw [Nat.zero_add, UInt32.toNat_ofNat_of_lt' hw]
  spells := by
    have h := congrArg texts (map_lexeme_placeRow 0 row)
    rwa [texts, List.flatMap_map] at h
  slices t ht := by
    obtain ⟨before, l, after, rfl, rfl⟩ := mem_placeRow ht
    rw [texts_append, texts_cons, Text.width_append, Text.width_append] at hw
    rw [UInt32.toNat_ofNat_of_lt' (by omega), UInt32.toNat_ofNat_of_lt' (by omega), Nat.zero_add,
      texts_append, texts_cons, ← List.append_assoc, Text.slice_append_append]

end Lexeme

/-! ## The tokens of a document -/

namespace Document

/-- The byte at which a line starts. -/
def lineStart (d : Document) (line : UInt32) : Nat := (d.text.before line.toNat).byteSize

/-- The byte at which the text of a line ends. -/
def lineStop (d : Document) (line : UInt32) : Nat :=
  d.lineStart line + (d.lineText line).byteSize

/-- A line of a document is one of its text. -/
theorem lineText_eq_line (d : Document) (line : UInt32) :
    d.lineText line = d.text.line line.toNat := by
  rw [lineText, d.lines_eq, Text.getD_lines]

/-- The lexemes of a line, before columns are counted. -/
def row (d : Document) (line : UInt32) : List Lexeme :=
  Lexeme.cut (d.text.before line.toNat).length
    ((d.text.before line.toNat).length + (d.lineText line).length) (Lexeme.ofSource d.text)

/-- No lexeme of a row is empty. -/
theorem text_ne_nil_of_mem_row {d : Document} {line : UInt32} {l : Lexeme} (hl : l ∈ d.row line) :
    l.text ≠ [] :=
  Lexeme.text_ne_nil_of_mem_cut hl

/-- The row of a line is the cut at its segment without the return. -/
theorem dropReturn_rows (d : Document) (line : UInt32) :
    Lexeme.dropReturn ((Lexeme.rows (Lexeme.ofSource d.text)).getD line.toNat [])
      = d.row line := by
  have hle := d.text.length_line_le line.toNat
  rw [Lexeme.getD_rows, Lexeme.dropReturn_eq_cut fun l hl => Lexeme.text_ne_nil_of_mem_cut hl,
    Lexeme.texts_cut, Lexeme.texts_ofSource, Text.drop_take_segment, row, lineText_eq_line,
    ← Text.line, Lexeme.cut_zero_cut (Nat.add_le_add_left hle _)]

/-- **The tokens of a line are its row with the columns counted.** -/
theorem lineTokens_eq_placeRow (d : Document) (line : UInt32) :
    d.lineTokens line = Lexeme.placeRow 0 (d.row line) := by
  rw [lineTokens, d.tokens_eq, Text.lineTokens, ← dropReturn_rows]
  exact List.getD_map _ [] (fun row => Lexeme.placeRow 0 (Lexeme.dropReturn row))

/-- A row spells its line. -/
theorem texts_row (d : Document) (line : UInt32) : Lexeme.texts (d.row line) = d.lineText line := by
  have hprefix := Text.drop_take_segment d.text line.toNat
  rw [← dropReturn_rows, Lexeme.dropReturn_eq_cut, Lexeme.texts_cut, Lexeme.getD_rows,
    Lexeme.texts_cut, Lexeme.texts_ofSource, Text.drop_take_segment, List.drop_zero,
    lineText_eq_line, Text.line]
  · conv_lhs =>
      enter [2]
      rw [← Text.dropReturn_append_ending (d.text.segment line.toNat)]
    exact List.take_left
  · rw [Lexeme.getD_rows]
    exact fun l hl => Lexeme.text_ne_nil_of_mem_cut hl

/-- **The tokens of a line tile it**, as long as its columns are words. -/
theorem tiles_lineTokens {d : Document} {line : UInt32}
    (hw : (d.lineText line).width < UInt32.size) :
    LineToken.Tiles (d.lineText line) (d.lineTokens line) := by
  rw [lineTokens_eq_placeRow, ← texts_row]
  exact Lexeme.tiles_placeRow (fun _ hl => text_ne_nil_of_mem_row hl) (by rwa [texts_row])

/-- **A line holds the part of every token that meets it.** -/
theorem forall₂_lineTokens {d : Document} {line : UInt32}
    (h : line.toNat < d.text.segments.length) :
    List.Forall₂
      (fun t token => t.lexeme.IsPartOf d.text (d.lineStart line) (d.lineStop line) token)
      (d.lineTokens line)
      ((Token.ofSource d.text).filter (Token.Meets (d.lineStart line) (d.lineStop line))) := by
  have hsplit := Text.before_append_line_append h
  rw [← lineText_eq_line] at hsplit
  have hstart : d.text.byteAt (d.text.before line.toNat).length = d.lineStart line := by
    conv_lhs =>
      enter [1]
      rw [← hsplit, List.append_assoc]
    exact Text.byteAt_length_append _ _
  have hstop : d.text.byteAt ((d.text.before line.toNat).length + (d.lineText line).length)
      = d.lineStop line := by
    conv_lhs =>
      enter [1]
      rw [← hsplit]
    rw [← List.length_append, Text.byteAt_length_append, Text.byteSize_append]
    rfl
  have hcut := Lexeme.forall₂_cut [] (Lexeme.texts_ofSource d.text)
    (d.text.before line.toNat).length
    ((d.text.before line.toNat).length + (d.lineText line).length)
  rw [hstart, hstop, List.length_nil, Nat.sub_zero, Nat.sub_zero] at hcut
  rw [← List.forall₂_map_left_iff, lineTokens_eq_placeRow, Lexeme.map_lexeme_placeRow]
  exact hcut

end Document

/-! ## Tiling -/

namespace Text

/-- **A line of a segment**: the segment, unless a carriage return ends it,
which is not part of the line. -/
def IsLineOf (line segment : Text) : Prop :=
  segment = line ++ ['\r'] ∨ segment = line ∧ segment.getLast? ≠ some '\r'

theorem isLineOf_dropReturn (g : Text) : IsLineOf g.dropReturn g := by
  unfold dropReturn
  split_ifs with h
  · obtain ⟨s, rfl⟩ := List.getLast?_eq_some_iff.1 h
    rw [List.dropLast_concat]
    exact Or.inl rfl
  · exact Or.inr ⟨rfl, h⟩

end Text

namespace Document

/-- **A document tiles every line of its text.** The lines are the texts
between the line feeds, less the return that may end one; and the tokens of
a line are one piece of every lexer token that shares a byte with it, the
first at column 0, each at the column where the one before it ends and the
last up to the end of the line. -/
theorem ofText_tiles (text : Text) (h : text.byteSize < 2 ^ 32) :
    (∃ segments : List Text, segments ≠ [] ∧ (∀ g ∈ segments, '\n' ∉ g)
      ∧ ['\n'].intercalate segments = text
      ∧ List.Forall₂ Text.IsLineOf (ofText text).lines segments)
    ∧ (ofText text).lines.length ≤ 2 ^ 32
    ∧ ∀ line : UInt32, line.toNat < (ofText text).lines.length →
      LineToken.Tiles ((ofText text).lineText line) ((ofText text).lineTokens line)
      ∧ (∀ t ∈ ((ofText text).lineTokens line).getLast?, t.stop = (ofText text).lineLength line)
      ∧ (∀ t ∈ (ofText text).lineTokens line, (ofText text).slice line t.start t.stop = t.text)
      ∧ List.Forall₂
          (fun t token => t.lexeme.IsPartOf text ((ofText text).lineStart line)
            ((ofText text).lineStop line) token)
          ((ofText text).lineTokens line)
          ((Token.ofSource text).filter
            (Token.Meets ((ofText text).lineStart line) ((ofText text).lineStop line)))
      ∧ ((ofText text).lineText line = [] → (ofText text).lineTokens line = []) := by
  have hlines : (ofText text).lines = text.segments.map Text.dropReturn := rfl
  refine ⟨⟨text.segments, Text.segments_ne_nil text, fun g => Text.not_mem_of_mem_segments,
    Text.intercalate_segments text, ?_⟩, ?_, fun line hline => ?_⟩
  · rw [hlines, List.forall₂_map_left_iff, List.forall₂_same]
    exact fun g _ => Text.isLineOf_dropReturn g
  · rw [hlines, List.length_map]
    exact (Text.length_segments_le text).trans h
  · rw [hlines, List.length_map] at hline
    have hsplit := congrArg Text.byteSize (Text.before_append_line_append hline)
    rw [Text.byteSize_append, Text.byteSize_append] at hsplit
    have hw : ((ofText text).lineText line).width < UInt32.size := by
      rw [lineText_eq_line]
      show (text.line line.toNat).width < 2 ^ 32
      have := Text.width_le_byteSize (text.line line.toNat)
      omega
    have htiles := tiles_lineTokens hw
    refine ⟨htiles, fun t ht => ?_, htiles.slices,
      forall₂_lineTokens (d := ofText text) hline, fun hnil => ?_⟩
    · rw [← UInt32.toNat_inj, htiles.stops t ht, lineLength, UInt32.toNat_ofNat_of_lt' hw]
    · by_contra hne
      obtain ⟨t, ts, hts⟩ := List.exists_cons_of_ne_nil hne
      have hspells := htiles.spells
      rw [hnil, hts, List.flatMap_cons, List.append_eq_nil_iff] at hspells
      exact (htiles.nonempty t (by rw [hts]; exact List.mem_cons_self)).1 hspells.1

/-- A comment over three lines, the middle one a lone terminator: the last
line holds what is left of it, and the number after it. -/
theorem ofText_tiles_comment :
    Text.byteSize ['{', '-', '\r', '\n', '\r', '\n', '-', '}', '1'] < 2 ^ 32
    ∧ LineToken.Tiles
        ((ofText ['{', '-', '\r', '\n', '\r', '\n', '-', '}', '1']).lineText 2)
        ((ofText ['{', '-', '\r', '\n', '\r', '\n', '-', '}', '1']).lineTokens 2) :=
  ⟨by decide, ((ofText_tiles _ (by decide)).2.2 2 (by decide)).1⟩

end Document

end EditorCore
