import EditorCore.Proofs.Document.Tiling
import EditorCore.Proofs.Token.Words

/-!
# Words on a line

A line holds pieces of lexemes, and nothing keeps a piece from being spelled unlike the
lexeme it is cut from. But the characters around a line continue no name, so names and
reserved words are cut nowhere: on its line a word is the whole lexeme, with what is
left of the line after it (`Document.exists_lexeme_of_row`). So it is spelled as words
of its kind are, and nothing that would continue it follows on the line.
-/

namespace EditorCore

/-- **The kinds of words**: names and reserved words. -/
def TokenKind.IsWord (kind : TokenKind) : Prop :=
  kind = .upperIdent ∨ kind = .lowerIdent ∨ kind.isKeyword

namespace Lexeme

variable {ls before after : List Lexeme} {l : Lexeme}

/-- **A piece of a cut is cut from a lexeme**, and the pieces around it from those
around that lexeme. -/
theorem exists_of_cut_eq {start stop : Nat} (h : cut start stop ls = before ++ l :: after) :
    ∃ ls₁ m ls₂, ls = ls₁ ++ m :: ls₂
      ∧ l = ⟨m.kind, (m.text.take (stop - (texts ls₁).length)).drop (start - (texts ls₁).length)⟩
      ∧ after = cut (start - (texts ls₁).length - m.text.length)
          (stop - (texts ls₁).length - m.text.length) ls₂ := by
  induction ls generalizing start stop before with
  | nil => exact absurd h.symm (List.append_ne_nil_of_right_ne_nil _ (List.cons_ne_nil _ _))
  | cons m ls ih =>
    by_cases hnil : (m.text.take stop).drop start = []
    · rw [cut, hnil, piece_nil, List.nil_append] at h
      obtain ⟨ls₁, m', ls₂, rfl, hl, hafter⟩ := ih h
      refine ⟨m :: ls₁, m', ls₂, rfl, ?_, ?_⟩
      · rwa [texts_cons, List.length_append, ← Nat.sub_sub, ← Nat.sub_sub]
      · rwa [texts_cons, List.length_append, ← Nat.sub_sub, ← Nat.sub_sub]
    · rw [cut, piece_of_ne_nil _ hnil, List.singleton_append] at h
      cases before with
      | nil =>
        obtain ⟨rfl, rfl⟩ := List.cons.inj h
        exact ⟨[], m, ls, rfl, rfl, rfl⟩
      | cons b before =>
        obtain ⟨ls₁, m', ls₂, rfl, hl, hafter⟩ := ih (List.cons.inj h).2
        refine ⟨m :: ls₁, m', ls₂, rfl, ?_, ?_⟩
        · rwa [texts_cons, List.length_append, ← Nat.sub_sub, ← Nat.sub_sub]
        · rwa [texts_cons, List.length_append, ← Nat.sub_sub, ← Nat.sub_sub]

/-- A word is spelled with the characters of names alone. -/
theorem InPlace.forall_isNameChar {source : Text} (h : InPlace source before l after)
    (hword : l.kind.IsWord) : ∀ c ∈ l.text, isNameChar c := by
  have hname : ∃ c rest, l.text = c :: rest ∧ isNameChar c ∧ ∀ d ∈ rest, isNameChar d := by
    rcases hword with hupper | hlower
    · obtain ⟨c, rest, htext, hc, hrest⟩ := h.upper.1 hupper
      exact ⟨c, rest, htext, isNameChar_of_isUpper hc, hrest⟩
    · obtain ⟨c, rest, htext, hc, hrest⟩ := h.lower.1 hlower
      exact ⟨c, rest, htext, isNameChar_of_isLowerStart hc, hrest⟩
  obtain ⟨c, rest, htext, hc, hrest⟩ := hname
  rw [htext]
  exact List.forall_mem_cons.2 ⟨hc, hrest⟩

/-- **A word is cut nowhere** between two characters that continue no name. -/
theorem exists_of_cut_eq_word {pre mid post : Text}
    (hpre : ∀ c ∈ pre.getLast?, isNameChar c = false)
    (hpost : ∀ c ∈ post.head?, isNameChar c = false)
    (h : cut pre.length (pre.length + mid.length) (ofSource (pre ++ mid ++ post))
      = before ++ l :: after)
    (hword : l.kind.IsWord) :
    ∃ ls₁ ls₂, ofSource (pre ++ mid ++ post) = ls₁ ++ l :: ls₂ ∧ texts after <+: texts ls₂ := by
  have hne : l.text ≠ [] :=
    text_ne_nil_of_mem_cut (h ▸ List.mem_append_right before List.mem_cons_self)
  obtain ⟨ls₁, m, ls₂, hls, rfl, rfl⟩ := exists_of_cut_eq h
  have hplace := inPlace_of_ofSource_eq hls
  have hnames := hplace.forall_isNameChar hword
  have hspells : ∀ i < m.text.length,
      (pre ++ mid ++ post)[(texts ls₁).length + i]? = m.text[i]? := by
    intro i hi
    rw [hplace.spells, List.append_assoc, List.getElem?_append_right (Nat.le_add_right _ _),
      Nat.add_sub_cancel_left, List.getElem?_append_left hi]
  rw [Ne, List.drop_eq_nil_iff, List.length_take, Nat.not_le] at hne
  -- a word that is cut holds the character before the line, or the one after it
  have hstart : pre.length ≤ (texts ls₁).length := by
    by_contra hlt
    have hi : pre.length - 1 - (texts ls₁).length < m.text.length := by omega
    have hchar := hspells _ hi
    rw [show (texts ls₁).length + (pre.length - 1 - (texts ls₁).length) = pre.length - 1 by omega,
      List.append_assoc, List.getElem?_append_left (by omega), ← List.getLast?_eq_getElem?,
      List.getElem?_eq_getElem hi] at hchar
    exact absurd ((hnames _ (List.getElem_mem hi)).symm.trans (hpre _ hchar)) nofun
  have hstop : (texts ls₁).length + m.text.length ≤ pre.length + mid.length := by
    by_contra hlt
    have hi : pre.length + mid.length - (texts ls₁).length < m.text.length := by omega
    have hchar := hspells _ hi
    rw [show (texts ls₁).length + (pre.length + mid.length - (texts ls₁).length)
        = (pre ++ mid).length by rw [List.length_append]; omega,
      List.getElem?_append_right (Nat.le_refl _), Nat.sub_self, ← List.head?_eq_getElem?,
      List.getElem?_eq_getElem hi] at hchar
    exact absurd ((hnames _ (List.getElem_mem hi)).symm.trans (hpost _ hchar)) nofun
  refine ⟨ls₁, ls₂, ?_, ?_⟩
  · rw [hls, Nat.sub_eq_zero_of_le hstart, List.drop_zero, List.take_of_length_le (by omega)]
  · rw [texts_cut, Nat.sub_eq_zero_of_le hstart, Nat.zero_sub, List.drop_zero]
    exact List.take_prefix _ _

end Lexeme

namespace Text

/-- What comes before a line continues no name, -/
theorem isNameChar_getLast?_before (t : Text) (line : Nat) :
    ∀ c ∈ (t.before line).getLast?, isNameChar c = false := by
  rcases List.eq_nil_or_concat' (t.segments.take line) with hnil | ⟨gs, g, hgs⟩
  · rw [before, hnil]
    exact fun c hc => absurd (List.mem_of_getLast? hc) List.not_mem_nil
  · rw [before, hgs, List.flatMap_append, List.flatMap_singleton, ← List.append_assoc,
      List.getLast?_concat]
    rintro c hc
    obtain rfl := Option.some.inj hc
    rfl

/-- and neither does what comes after it. -/
theorem isNameChar_head?_ending_append_after (t : Text) (line : Nat) :
    ∀ c ∈ ((t.segment line).ending ++ t.after line).head?, isNameChar c = false := by
  unfold ending
  split_ifs
  · rintro c hc
    obtain rfl := Option.some.inj hc
    rfl
  · rw [List.nil_append]
    rcases after_eq_nil_or_cons t line with hafter | ⟨u, hafter⟩
    · rw [hafter]
      exact fun c hc => absurd (List.mem_of_head? hc) List.not_mem_nil
    · rw [hafter]
      rintro c hc
      obtain rfl := Option.some.inj hc
      rfl

end Text

namespace Document

variable {d : Document} {line : UInt32} {before after : List Lexeme} {l : Lexeme}

/-- **On its line a word is the whole lexeme**, and what follows it on the line is the
start of what follows it in the source. -/
theorem exists_lexeme_of_row (h : d.row line = before ++ l :: after) (hword : l.kind.IsWord) :
    ∃ ls ms, Lexeme.ofSource d.text = ls ++ l :: ms ∧ Lexeme.texts after <+: Lexeme.texts ms := by
  have hl : l ∈ d.row line := h ▸ List.mem_append_right before List.mem_cons_self
  have hline : line.toNat < d.text.segments.length := by
    by_contra hge
    have hspells := texts_row d line
    rw [lineText_eq_line, Text.line, Text.segment_of_length_le (Nat.le_of_not_lt hge)] at hspells
    exact text_ne_nil_of_mem_row hl (List.flatMap_eq_nil_iff.1 hspells l hl)
  have hsplit := Text.before_append_line_append hline
  rw [← lineText_eq_line] at hsplit
  have hpre := Text.isNameChar_getLast?_before d.text line.toNat
  have hpost := Text.isNameChar_head?_ending_append_after d.text line.toNat
  unfold row at h
  generalize d.text.before line.toNat = pre at h hsplit hpre
  rw [← hsplit] at h ⊢
  exact Lexeme.exists_of_cut_eq_word hpre hpost h hword

end Document

end EditorCore
