import EditorCore.Proofs.Document.Tiling
import EditorCore.Proofs.Token.Names

/-!
# Lines that are read by themselves

A line **stands alone** if its row is that of the same text without anything else: what
it starts ends on it, and the lines after it are read as they are without it
(`Text.StandsAlone`). Two kinds of lines do. A line comment takes its line and no more,
whatever it holds. And where neither a string nor a block comment can be opened, every
token is read within its line but for blanks (`Text.standsAlone_of_plain`), which are cut
at line feeds in any case: those at the end of a line and those that start the next one
are one lexeme, and the pieces of two.

Where the lines before one stand alone, so does all that comes before it, and the row of
every line up to there is known from its text (`Lexeme.rows_ofSource_of_standsAlone`).
-/

namespace EditorCore

namespace Lexeme

variable {ls : List Lexeme} {s t : Text} {l : Lexeme}

/-! ## Rows of lexemes on a line -/

/-- Lexemes that stay on their line start the first row of what follows them. -/
theorem rows_append (hls : ∀ l ∈ ls, l.text ≠ [] ∧ '\n' ∉ l.text) (ms : List Lexeme) :
    rows (ls ++ ms) = (rows ms).modifyHead (ls ++ ·) := by
  induction ls with
  | nil => exact (congrFun List.modifyHead_id (rows ms)).symm
  | cons l ls ih =>
    obtain ⟨⟨hne, hline⟩, hls⟩ := List.forall_mem_cons.1 hls
    rw [List.cons_append, rows, ih hls, Text.segments_of_not_mem hline, List.map_singleton,
      piece_of_ne_nil _ hne]
    exact List.modifyHead_modifyHead

/-- A piece brings as many rows as it has segments. -/
theorem rows_piece_append (kind : TokenKind) (t : Text) (ms : List Lexeme) :
    rows (piece kind t ++ ms) = joinRows (t.segments.map (piece kind)) (rows ms) := by
  by_cases ht : t = []
  · subst ht
    exact (congrFun List.modifyHead_id (rows ms)).symm
  · rw [piece_of_ne_nil kind ht]
    rfl

theorem rows_ne_nil (ls : List Lexeme) : rows ls ≠ [] := by
  obtain ⟨g, gs, hg⟩ := List.exists_cons_of_ne_nil (Text.segments_ne_nil (texts ls))
  rw [rows_eq_map_cut, hg]
  exact List.cons_ne_nil _ _

/-- What a source does not hold, no lexeme of it does. -/
theorem not_mem_of_mem_ofSource {c : Char} (h : c ∉ t) (hl : l ∈ ofSource t) : c ∉ l.text :=
  fun hc => h (by rw [← texts_ofSource t]; exact List.mem_flatMap.2 ⟨l, hl, hc⟩)

/-- The lexemes of blanks. -/
theorem ofSource_of_isSpace (hs : ∀ c ∈ s, isSpace c) : ofSource s = piece .whitespace s := by
  have h := ofSource_blanks (t := []) hs nofun
  rwa [List.append_nil, ofSource_nil, List.append_nil] at h

/-- A line comment goes on to the end of its line. -/
theorem ofSource_lineComment_append (ht : ∀ c ∈ t, isLineEnd c = false) {r : Text}
    (hr : ∀ c ∈ r.head?, isLineEnd c) :
    ofSource ('-' :: '-' :: t ++ r) = ⟨.lineComment, '-' :: '-' :: t⟩ :: ofSource r := by
  refine ofSource_cons_append (s := '-' :: t) nofun ?_
  refine congrArg (Prod.mk TokenKind.lineComment) (Scan.run_append_of_head? ?_ ?_)
  · exact List.forall_mem_cons.2 ⟨rfl, fun c hc => by rw [ht c hc]; rfl⟩
  · exact fun c hc => by rw [hr c hc]; rfl

theorem ofSource_lineComment (ht : ∀ c ∈ t, isLineEnd c = false) :
    ofSource ('-' :: '-' :: t) = [⟨.lineComment, '-' :: '-' :: t⟩] := by
  have h := ofSource_lineComment_append ht (r := []) nofun
  rwa [List.append_nil, ofSource_nil] at h

/-- **Blanks at the end of a line** are its piece of a lexeme that may go on below it,
and what is below is read as it is by itself. -/
theorem rows_ofSource_newline (hs : ∀ c ∈ s, isSpace c) (hline : '\n' ∉ s) (r : Text) :
    rows (ofSource (s ++ '\n' :: r)) = piece .whitespace s :: rows (ofSource r) := by
  obtain ⟨w, u, rfl, hw, hu⟩ := Text.exists_takeWhile_append isSpace r
  have hblanks : ∀ c ∈ s ++ '\n' :: w, isSpace c :=
    List.forall_mem_append.2 ⟨hs, List.forall_mem_cons.2 ⟨rfl, hw⟩⟩
  obtain ⟨g, gs, hg⟩ := List.exists_cons_of_ne_nil (Text.segments_ne_nil w)
  have hsource : s ++ '\n' :: (w ++ u) = (s ++ '\n' :: w) ++ u := by
    rw [List.append_assoc, List.cons_append]
  rw [hsource, ofSource_blanks hblanks hu, ofSource_blanks hw hu, rows_piece_append,
    rows_piece_append, Text.segments_append_newline, Text.segments_of_not_mem hline, hg]
  rfl

end Lexeme

namespace Text

open Lexeme

variable {t : Text}

/-! ## Lines -/

/-- **A line stands alone**: whatever follows it, it is read as it is by itself, and so
is what follows. -/
def StandsAlone (t : Text) : Prop :=
  ∀ r, rows (ofSource (t ++ '\n' :: r)) = ofSource t :: rows (ofSource r)

/-- **Nothing opens a string or a block comment** in a text. -/
def Plain (t : Text) : Prop := '{' ∉ t ∧ '"' ∉ t

instance (t : Text) : Decidable t.Plain := inferInstanceAs (Decidable ('{' ∉ t ∧ '"' ∉ t))

theorem standsAlone_of_isSpace (ht : ∀ c ∈ t, isSpace c) (hline : '\n' ∉ t) :
    t.StandsAlone := by
  intro r
  rw [ofSource_of_isSpace ht, rows_ofSource_newline ht hline]

theorem standsAlone_nil : StandsAlone [] := standsAlone_of_isSpace nofun List.not_mem_nil

/-- **A line comment stands alone**, whatever it holds. -/
theorem standsAlone_lineComment (ht : ∀ c ∈ t, isLineEnd c = false) :
    StandsAlone ('-' :: '-' :: t) := by
  have hline : '\n' ∉ '-' :: '-' :: t := by
    rw [List.mem_cons, List.mem_cons, not_or, not_or]
    exact ⟨by decide, by decide, fun hmem => absurd (ht '\n' hmem) (by decide)⟩
  intro r
  have hhead : ∀ c ∈ ('\n' :: r).head?, isLineEnd c := by
    rintro c hc
    obtain rfl := Option.some.inj hc
    rfl
  have hempty := standsAlone_nil r
  rw [List.nil_append, ofSource_nil] at hempty
  rw [ofSource_lineComment_append ht hhead, ofSource_lineComment ht, ← List.singleton_append,
    rows_append, hempty, List.modifyHead_cons, List.append_nil]
  exact List.forall_mem_singleton.2 ⟨List.cons_ne_nil _ _, hline⟩

/-- **A line in which no string and no block comment is opened stands alone.** -/
theorem standsAlone_of_plain (hline : '\n' ∉ t) (h : Plain t) : StandsAlone t := by
  intro r
  fun_induction Lexeme.scan t with
  | case1 => exact standsAlone_nil r
  | case2 c t kind n htoken ih =>
    have hn : n ≤ t.length := by
      have hle := Scan.token_le c t
      rwa [htoken] at hle
    have hdrop : ∀ {d : Char}, d ∉ c :: t → d ∉ t.drop n := fun hd hmem =>
      hd (List.mem_cons_of_mem c (List.mem_of_mem_drop hmem))
    by_cases hblank : ∀ d ∈ c :: t, isSpace d
    · -- blanks up to the end of the line go on with those of the next one
      exact standsAlone_of_isSpace hblank hline r
    · -- any other token ends on the line
      have hsame : Scan.token c (t ++ '\n' :: r) = Scan.token c t := by
        by_cases hspace : isSpace c
        · rw [Scan.token_space hspace, Scan.token_space hspace, Scan.run, Scan.run,
            List.takeWhile_append, if_neg]
          intro hall
          refine hblank (List.forall_mem_cons.2 ⟨hspace, ?_⟩)
          rw [← (List.takeWhile_prefix isSpace).eq_of_length hall]
          exact fun d hd => List.mem_takeWhile_imp hd
        · refine Scan.token_newline hspace ?_ ?_ r
          · rintro rfl
            exact h.2 List.mem_cons_self
          · rintro ⟨rfl, -⟩
            exact h.1 List.mem_cons_self
      have hsource := ofSource_cons c t
      rw [htoken] at hsource
      have hlexemes : ∀ l ∈ splitPoint ⟨kind, c :: t.take n⟩, l.text ≠ [] ∧ '\n' ∉ l.text := by
        intro l hl
        have hmem : l ∈ ofSource (c :: t) := by
          rw [hsource]
          exact List.mem_append_left _ hl
        exact ⟨text_ne_nil_of_mem_ofSource hmem, not_mem_of_mem_ofSource hline hmem⟩
      rw [List.cons_append, ofSource_cons, hsame, htoken, hsource]
      dsimp only
      rw [List.take_append_of_le_length hn, List.drop_append_of_le_length hn,
        rows_append hlexemes, ih (hdrop hline) ⟨hdrop h.1, hdrop h.2⟩, List.modifyHead_cons]

end Text

namespace Lexeme

open Text

variable {t : Text} {k : Nat}

/-- **The rows of lines that stand alone** are their lexemes, and the line after them is
read as if the text started there. -/
theorem rows_ofSource_of_standsAlone (hk : k < t.segments.length)
    (h : ∀ i < k, (t.segment i).StandsAlone) :
    rows (ofSource t)
      = (t.segments.take k).map ofSource ++ rows (ofSource (t.segment k ++ t.after k)) := by
  induction k with
  | zero =>
    have hsplit := before_append_segment_append_after hk
    rw [before, List.take_zero, List.flatMap_nil, List.nil_append] at hsplit
    rw [hsplit]
    rfl
  | succ k ih =>
    have hlt := Nat.lt_of_succ_lt hk
    have hafter : t.after k = '\n' :: (t.segment (k + 1) ++ t.after (k + 1)) := by
      rw [after, after, Text.segment, List.getD_eq_getElem _ _ hk, List.drop_eq_getElem_cons hk]
      rfl
    have hrow : (t.segments.take (k + 1)).map ofSource
        = (t.segments.take k).map ofSource ++ [ofSource (t.segment k)] := by
      rw [List.take_succ_eq_append_getElem hlt, List.map_append, Text.segment,
        List.getD_eq_getElem _ _ hlt]
      rfl
    rw [ih hlt fun i hi => h i (Nat.lt_succ_of_lt hi), hafter, h k (Nat.lt_succ_self k), hrow,
      List.append_assoc]
    rfl

theorem getD_rows_of_standsAlone (hk : k < t.segments.length)
    (h : ∀ i < k, (t.segment i).StandsAlone) :
    (∀ i < k, (rows (ofSource t)).getD i [] = ofSource (t.segment i))
      ∧ (rows (ofSource t)).getD k [] = (rows (ofSource (t.segment k ++ t.after k))).getD 0 [] := by
  have hlength : ((t.segments.take k).map ofSource).length = k := by
    rw [List.length_map, List.length_take, Nat.min_eq_left hk.le]
  rw [rows_ofSource_of_standsAlone hk h]
  constructor
  · intro i hi
    have hlt := hi.trans hk
    rw [List.getD_append _ _ _ _ (hlength.symm ▸ hi), List.getD_eq_getElem _ _ (hlength.symm ▸ hi),
      List.getElem_map, List.getElem_take, Text.segment, List.getD_eq_getElem _ _ hlt]
  · rw [List.getD_append_right _ _ _ _ hlength.le, hlength, Nat.sub_self]

end Lexeme

end EditorCore
