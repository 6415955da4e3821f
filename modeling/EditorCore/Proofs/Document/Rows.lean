import EditorCore.Proofs.Text.Lines
import EditorCore.Document

/-!
# Rows are cuts of the lexemes

The rows of a document come about by cutting each lexeme at its line feeds
and joining the ends of neighbours. Here is the other description, which
does not look at line feeds at all: `cut` takes, from lexemes laid out one
after the other, the pieces between two characters of what they spell. A
row is the cut at the two ends of its line (`getD_rows`), and the carriage
return of a terminator is dropped by cutting one character earlier
(`dropReturn_eq_cut`).

Read against the source, a cut holds exactly one piece for every token that
meets the range, in order (`forall₂_cut`).
-/

namespace EditorCore

namespace Lexeme

/-! ## Pieces -/

@[simp] theorem piece_nil (kind : TokenKind) : piece kind [] = [] := rfl

theorem piece_of_ne_nil (kind : TokenKind) {t : Text} (ht : t ≠ []) :
    piece kind t = [⟨kind, t⟩] := by
  rw [piece, if_neg (by simpa using ht)]

@[simp] theorem texts_piece (kind : TokenKind) (t : Text) : texts (piece kind t) = t := by
  by_cases ht : t = []
  · subst ht
    rfl
  · rw [piece_of_ne_nil kind ht, texts_cons, texts_nil, List.append_nil]

/-- No piece is empty. -/
theorem text_ne_nil_of_mem_piece {kind : TokenKind} {t : Text} {p : Lexeme}
    (hp : p ∈ piece kind t) : p.text ≠ [] := by
  by_cases ht : t = []
  · subst ht
    exact absurd hp List.not_mem_nil
  · rw [piece_of_ne_nil kind ht, List.mem_singleton] at hp
    rwa [hp]

/-! ## Cuts -/

/-- **The pieces between two characters** of what the lexemes spell. -/
def cut (start stop : Nat) : List Lexeme → List Lexeme
  | [] => []
  | l :: ls =>
    piece l.kind ((l.text.take stop).drop start)
      ++ cut (start - l.text.length) (stop - l.text.length) ls

/-- A cut spells the characters between its ends. -/
theorem texts_cut (start stop : Nat) (ls : List Lexeme) :
    texts (cut start stop ls) = ((texts ls).take stop).drop start := by
  induction ls generalizing start stop with
  | nil => simp [cut]
  | cons l ls ih =>
    rw [cut, texts_append, texts_piece, ih, texts_cons, List.take_append, List.drop_append,
      List.length_take]
    rcases Nat.le_total l.text.length stop with h | h
    · rw [Nat.min_eq_right h]
    · rw [Nat.sub_eq_zero_of_le h, List.take_zero, List.drop_nil, List.drop_nil]

/-- No piece of a cut is empty. -/
theorem text_ne_nil_of_mem_cut {start stop : Nat} {ls : List Lexeme} {p : Lexeme}
    (hp : p ∈ cut start stop ls) : p.text ≠ [] := by
  induction ls generalizing start stop with
  | nil => exact absurd hp List.not_mem_nil
  | cons l ls ih =>
    rcases List.mem_append.1 hp with hp | hp
    · exact text_ne_nil_of_mem_piece hp
    · exact ih hp

/-- A cut that ends where it starts is empty. -/
theorem cut_of_le {start stop : Nat} (h : stop ≤ start) (ls : List Lexeme) :
    cut start stop ls = [] := by
  induction ls generalizing start stop with
  | nil => rfl
  | cons l ls ih =>
    have hnil : (l.text.take stop).drop start = [] := by
      rw [List.drop_eq_nil_iff, List.length_take]
      omega
    rw [cut, hnil, ih (by omega)]
    rfl

/-- A cut past the first lexeme is one of the rest. -/
theorem cut_cons_add (l : Lexeme) (ls : List Lexeme) (start stop : Nat) :
    cut (l.text.length + start) (l.text.length + stop) (l :: ls) = cut start stop ls := by
  have hnil : (l.text.take (l.text.length + stop)).drop (l.text.length + start) = [] := by
    rw [List.drop_eq_nil_iff, List.length_take]
    omega
  rw [cut, hnil, piece_nil, List.nil_append, Nat.add_sub_cancel_left, Nat.add_sub_cancel_left]

theorem cut_append (start stop : Nat) (ls ms : List Lexeme) :
    cut start stop (ls ++ ms)
      = cut start stop ls
        ++ cut (start - (texts ls).length) (stop - (texts ls).length) ms := by
  induction ls generalizing start stop with
  | nil => simp [cut]
  | cons l ls ih =>
    rw [List.cons_append, cut, ih, cut, texts_cons, List.length_append, List.append_assoc,
      Nat.sub_sub, Nat.sub_sub]

/-- Cutting a piece cuts its text. -/
theorem cut_piece (start stop : Nat) (kind : TokenKind) (t : Text) :
    cut start stop (piece kind t) = piece kind ((t.take stop).drop start) := by
  by_cases ht : t = []
  · subst ht
    simp [cut]
  · rw [piece_of_ne_nil kind ht, cut, cut, List.append_nil]

/-- **The start of a cut is a cut.** -/
theorem cut_zero_cut {start stop n : Nat} (h : start + n ≤ stop) (ls : List Lexeme) :
    cut 0 n (cut start stop ls) = cut start (start + n) ls := by
  induction ls generalizing start stop n with
  | nil => rfl
  | cons l ls ih =>
    have hlen : ((l.text.take stop).drop start).length
        = min stop l.text.length - start := by
      rw [List.length_drop, List.length_take]
    have hpiece : ((l.text.take stop).drop start).take n
        = (l.text.take (start + n)).drop start := by
      rw [List.take_drop, List.take_take, Nat.min_eq_left h]
    rw [cut, cut_append, cut_piece, texts_piece, List.drop_zero, hpiece, hlen, Nat.zero_sub,
      ih (by omega), cut]
    congr 2
    omega

/-! ## Rows -/

/-- Joining rows joins one row at the seam. -/
theorem joinRows_concat_cons {α : Type} (xs : List (List α)) (x y : List α)
    (ys : List (List α)) : joinRows (xs ++ [x]) (y :: ys) = xs ++ (x ++ y) :: ys := by
  induction xs with
  | nil => rfl
  | cons w xs ih =>
    obtain ⟨v, vs, hv⟩ : ∃ v vs, xs ++ [x] = v :: vs :=
      List.exists_cons_of_ne_nil (by simp)
    rw [List.cons_append, List.cons_append, ← ih, hv]
    rfl

/-- The segments of two texts join at the seam, as rows do. -/
theorem segments_append (s t : Text) :
    (s ++ t).segments = joinRows s.segments t.segments := by
  induction s with
  | nil => cases h : t.segments <;> simp [joinRows, h]
  | cons c s ih =>
    obtain ⟨g, gs, hg⟩ := List.exists_cons_of_ne_nil (Text.segments_ne_nil s)
    by_cases hc : c = '\n'
    · subst hc
      rw [List.cons_append, Text.segments_cons_newline, Text.segments_cons_newline, ih, hg]
      rfl
    · rw [List.cons_append, Text.segments_cons_of_ne hc, Text.segments_cons_of_ne hc, ih, hg]
      cases gs <;> cases t.segments <;> rfl

/-- The characters that segments take when laid out from `start`, a line
feed between two of them. -/
def spans (start : Nat) : List Text → List (Nat × Nat)
  | [] => []
  | g :: gs => (start, start + g.length) :: spans (start + g.length + 1) gs

theorem length_spans (start : Nat) (gs : List Text) : (spans start gs).length = gs.length := by
  induction gs generalizing start with
  | nil => rfl
  | cons g gs ih => exact congrArg (· + 1) (ih _)

theorem spans_append (start : Nat) (gs hs : List Text) :
    spans start (gs ++ hs)
      = spans start gs ++ spans (start + (gs.flatMap (· ++ ['\n'])).length) hs := by
  induction gs generalizing start with
  | nil => rfl
  | cons g gs ih =>
    rw [List.cons_append, spans, ih, spans, List.cons_append, List.flatMap_cons,
      List.length_append, List.length_append, List.length_singleton, Nat.add_assoc,
      Nat.add_assoc, Nat.add_assoc]

/-- Where the segments from one on lie. -/
theorem getElem?_spans (gs : List Text) (start i : Nat) :
    (spans start gs)[i]? = gs[i]?.map fun g =>
      (start + ((gs.take i).flatMap (· ++ ['\n'])).length,
        start + ((gs.take i).flatMap (· ++ ['\n'])).length + g.length) := by
  induction gs generalizing start i with
  | nil => rfl
  | cons g gs ih =>
    cases i with
    | zero => rfl
    | succ i =>
      rw [spans, List.getElem?_cons_succ, ih, List.getElem?_cons_succ, List.take_succ_cons,
        List.flatMap_cons, List.length_append, List.length_append, List.length_singleton]
      simp only [Nat.add_assoc]

/-- Spans move with their start. -/
theorem spans_add (n start : Nat) (gs : List Text) :
    spans (n + start) gs = (spans start gs).map fun s => (n + s.1, n + s.2) := by
  induction gs generalizing start with
  | nil => rfl
  | cons g gs ih =>
    rw [spans, spans, List.map_cons, ← ih]
    simp only [Nat.add_assoc]

/-- Within one lexeme, a cut at the span of a segment is the piece of that
segment. -/
theorem map_cut_spans (l : Lexeme) (ls : List Lexeme) (pre : Text) (gs : List Text) {rest : Text}
    (h : l.text = pre ++ gs.flatMap (· ++ ['\n']) ++ rest) :
    (spans pre.length gs).map (fun s => cut s.1 s.2 (l :: ls)) = gs.map (piece l.kind) := by
  induction gs generalizing pre with
  | nil => rfl
  | cons g gs ih =>
    have hl : l.text = pre ++ (g ++ (['\n'] ++ gs.flatMap (· ++ ['\n']) ++ rest)) := by
      simpa using h
    have hnext := ih (pre ++ g ++ ['\n']) (by simpa using h)
    rw [List.length_append, List.length_append, List.length_singleton] at hnext
    have hcut : cut pre.length (pre.length + g.length) (l :: ls) = piece l.kind g := by
      rw [cut, cut_of_le (by rw [hl]; simp), List.append_nil, hl, List.take_length_add_append,
        List.drop_left, List.take_left]
    rw [spans, List.map_cons, List.map_cons, hnext, hcut]

/-- **The rows of lexemes are their cuts at the lines they spell.** -/
theorem rows_eq_map_cut (ls : List Lexeme) :
    rows ls = (spans 0 (texts ls).segments).map fun s => cut s.1 s.2 ls := by
  induction ls with
  | nil => rfl
  | cons l ls ih =>
    obtain ⟨xs, x, hx⟩ : ∃ xs x, l.text.segments = xs ++ [x] :=
      ⟨_, _, (List.dropLast_append_getLast (Text.segments_ne_nil l.text)).symm⟩
    obtain ⟨y, ys, hy⟩ := List.exists_cons_of_ne_nil (Text.segments_ne_nil (texts ls))
    have hl : l.text = xs.flatMap (· ++ ['\n']) ++ x := by
      conv_lhs => rw [← Text.intercalate_segments l.text, hx, Text.intercalate_append_cons]
      exact List.append_nil _
    have hlen : l.text.length = (xs.flatMap (· ++ ['\n'])).length + x.length := by
      conv_lhs => rw [hl, List.length_append]
    -- the lines before the seam are segments of `l`, the one at the seam is
    -- parted between `l` and `ls`, and those after it are lines of `ls`
    have hbefore := map_cut_spans l ls [] xs hl
    have hseam : cut (xs.flatMap (· ++ ['\n'])).length
          ((xs.flatMap (· ++ ['\n'])).length + (x ++ y).length) (l :: ls)
        = piece l.kind x ++ cut 0 y.length ls := by
      rw [cut, hlen, List.length_append, ← Nat.add_assoc, Nat.add_sub_cancel_left,
        Nat.sub_eq_zero_of_le (by omega), List.take_of_length_le (by omega), hl, List.drop_left]
    have hafter : (spans (l.text.length + (y.length + 1)) ys).map
          (fun s => cut s.1 s.2 (l :: ls))
        = (spans (y.length + 1) ys).map fun s => cut s.1 s.2 ls := by
      rw [spans_add, List.map_map]
      exact List.map_congr_left fun s _ => cut_cons_add l ls s.1 s.2
    rw [rows, ih, texts_cons, segments_append, hx, hy, List.map_append, List.map_singleton,
      spans, List.map_cons, joinRows_concat_cons, joinRows_concat_cons, spans_append,
      List.map_append, spans, List.map_cons, Nat.zero_add, Nat.zero_add, ← hbefore, hseam,
      show (xs.flatMap (· ++ ['\n'])).length + (x ++ y).length + 1
        = l.text.length + (y.length + 1) by rw [hlen, List.length_append]; omega, hafter]
    rfl

/-- **A row is the cut at its line.** -/
theorem getD_rows (ls : List Lexeme) (line : Nat) :
    (rows ls).getD line []
      = cut ((texts ls).before line).length
          (((texts ls).before line).length + ((texts ls).segment line).length) ls := by
  rw [rows_eq_map_cut, List.getD_eq_getElem?_getD, List.getElem?_map, getElem?_spans,
    Text.segment, List.getD_eq_getElem?_getD]
  cases h : (texts ls).segments[line]? with
  | none => exact (cut_of_le (Nat.le_refl _) ls).symm
  | some g =>
    simp only [Option.map_some, Option.getD_some, Nat.zero_add]
    rfl

/-! ## The return of a row -/

/-- **Dropping the return of a row cuts it before the return.** -/
theorem dropReturn_eq_cut {row : List Lexeme} (h : ∀ l ∈ row, l.text ≠ []) :
    dropReturn row = cut 0 (texts row).dropReturn.length row := by
  induction row with
  | nil => rfl
  | cons l row ih =>
    cases row with
    | nil =>
      have hd : (l.text.dropReturn ++ l.text.ending).take l.text.dropReturn.length
          = l.text.dropReturn := List.take_left
      rw [Text.dropReturn_append_ending] at hd
      simp only [dropReturn, cut, texts_cons, texts_nil, List.append_nil, List.drop_zero]
      rw [hd]
    | cons m row =>
      have hne : texts (m :: row) ≠ [] := by
        rw [texts_cons, Ne, List.append_eq_nil_iff, not_and]
        exact fun hm => absurd hm (h m (List.mem_cons_of_mem l List.mem_cons_self))
      have hd : (l.text ++ texts (m :: row)).dropReturn
          = l.text ++ (texts (m :: row)).dropReturn := Text.dropReturn_append (.inl hne)
      rw [dropReturn, ih fun k hk => h k (List.mem_cons_of_mem l hk), texts_cons l, hd,
        cut.eq_2 0 _ l, List.length_append, Nat.add_sub_cancel_left,
        List.take_of_length_le (Nat.le_add_right _ _), List.drop_zero,
        piece_of_ne_nil l.kind (h l List.mem_cons_self), Nat.zero_sub]
      · rfl
      · exact fun hnil => List.cons_ne_nil m row hnil

end Lexeme

end EditorCore
