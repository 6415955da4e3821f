import EditorCore.Proofs.Document.Prefix
import EditorCore.Proofs.Hint.ByIndex

/-!
# What lies below a line

A hint is about one line, but the tokens of that line come from lexing the
whole buffer, and a string that is opened above may be closed far below. So
it takes two facts that no text below a line changes a hint there. The first
is about the lexer: up to a line feed, only errors that may be triple-quoted
strings depend on what follows (`Document.map_ifClosed_lineTokens_append`).
The second is about the resolver: it does not tell an error from a string, so
sources that agree but for that have the same hints
(`TokenSource.Agree.resolve?_eq`).
-/

namespace EditorCore

/-! ## Errors as strings -/

namespace Category

/-- The category, were the token closed further on: an error could be a
string. -/
def ifClosed : Category → Category
  | error => string
  | category => category

/-- Categories that agree but for errors are the same, or both are of a string
or an error. -/
theorem eq_or_of_ifClosed_eq {c d : Category} (h : c.ifClosed = d.ifClosed) :
    c = d ∨ (c = string ∨ c = error) ∧ (d = string ∨ d = error) := by
  cases c <;> cases d <;> first | decide | exact absurd h (by decide)

theorem eq_iff_of_ifClosed_eq {c d k : Category} (h : c.ifClosed = d.ifClosed)
    (hk : k.ifClosed ≠ string) : c = k ↔ d = k := by
  rcases eq_or_of_ifClosed_eq h with rfl | ⟨rfl | rfl, rfl | rfl⟩
  · exact Iff.rfl
  all_goals exact ⟨fun heq => absurd (heq ▸ rfl) hk, fun heq => absurd (heq ▸ rfl) hk⟩

end Category

theorem TokenKind.ifClosed_category (kind : TokenKind) :
    kind.ifClosed.category.ifClosed = kind.category.ifClosed := by
  cases kind <;> rfl

/-- **Tokens that a cursor sees alike**: one may be an error where the other is
a string. -/
structure TokenView.Alike (t u : TokenView) : Prop where
  category : t.category.ifClosed = u.category.ifClosed
  text : t.text = u.text
  start : t.start = u.start
  stop : t.stop = u.stop

/-! ## The resolver -/

namespace TokenSource

/-- **Sources that agree on a line**: the text is the same, and a cursor sees
tokens alike at every column. -/
structure Agree (s s' : TokenSource) (line : UInt32) : Prop where
  lineText : s.lineText line = s'.lineText line
  tokenAt : ∀ column, (s.tokenAt ⟨line, column⟩).Alike (s'.tokenAt ⟨line, column⟩)

variable {s s' : TokenSource} {line : UInt32} {t u : TokenView}

namespace Agree

theorem before (h : s.Agree s' line) (ht : t.Alike u) :
    (s.before line t).Alike (s'.before line u) := by
  rw [TokenSource.before, TokenSource.before, ht.start]
  exact h.tokenAt u.start

theorem after (h : s.Agree s' line) (ht : t.Alike u) :
    (s.after line t).Alike (s'.after line u) := by
  rw [TokenSource.after, TokenSource.after, ht.stop]
  exact h.tokenAt _

/-- One step to the left finds qualifiers alike. -/
theorem qualifier? (h : s.Agree s' line) (ht : t.Alike u) :
    Option.Rel TokenView.Alike (s.qualifier? line t) (s'.qualifier? line u) := by
  have hdot := h.before ht
  have hq := h.before hdot
  have hupper : (s.before line (s.before line t)).category = .upperIdentifier
      ↔ (s'.before line (s'.before line u)).category = .upperIdentifier :=
    Category.eq_iff_of_ifClosed_eq hq.category (by decide)
  simp only [TokenSource.qualifier?, hdot.text, hdot.start, ht.start, hq.start, hupper]
  split_ifs
  · exact .some hq
  · exact .none
  · exact .none

/-- **The walks to the left collect the same path.** -/
theorem qualifiers (h : s.Agree s' line) (ht : t.Alike u) :
    s.qualifiers line t = s'.qualifiers line u := by
  -- on the column the token starts at, which falls from step to step
  induction hn : t.start.toNat using Nat.strong_induction_on generalizing t u with
  | _ n ih =>
    have hstep := h.qualifier? ht
    cases hq : s.qualifier? line t with
    | none =>
      cases hq' : s'.qualifier? line u with
      | none => rw [Document.qualifiers_of_none hq, Document.qualifiers_of_none hq']
      | some r =>
        rw [hq, hq'] at hstep
        exact absurd hstep nofun
    | some q =>
      cases hq' : s'.qualifier? line u with
      | none =>
        rw [hq, hq'] at hstep
        exact absurd hstep nofun
      | some r =>
        rw [hq, hq', Option.rel_some_some] at hstep
        have hlt := UInt32.lt_iff_toNat_lt.1 (start_lt_of_qualifier? hq)
        rw [Document.qualifiers_of_some hq, Document.qualifiers_of_some hq',
          ih _ (hn ▸ hlt) hstep rfl, hstep.text]

/-- One step to the right adds the same text and goes on from tokens alike. -/
theorem segment (h : s.Agree s' line) (ht : t.Alike u) :
    (s.segment line t).1 = (s'.segment line u).1
      ∧ Option.Rel TokenView.Alike (s.segment line t).2 (s'.segment line u).2 := by
  have hdot := h.after ht
  have hnext := h.after hdot
  unfold TokenSource.segment
  dsimp only
  rw [hdot.text, hdot.start, hdot.stop, ht.stop, hnext.start, hnext.text]
  split_ifs
  · exact ⟨rfl, .none⟩
  · exact ⟨rfl, .none⟩
  · rcases Category.eq_or_of_ifClosed_eq hnext.category with heq | ⟨hc | hc, hd | hd⟩
    · rw [heq]
      split
      · exact ⟨rfl, .none⟩
      · exact ⟨rfl, .some hnext⟩
      · exact ⟨rfl, .none⟩
    all_goals
      rw [hc, hd]
      exact ⟨rfl, .none⟩

/-- The walks to the right add the same text, or neither has ended by then. -/
theorem segmentsWithin (h : s.Agree s' line) (steps : Nat) (ht : t.Alike u) :
    s.segmentsWithin line steps t = s'.segmentsWithin line steps u := by
  induction steps generalizing t u with
  | zero => rfl
  | succ steps ih =>
    have hstep := h.segment ht
    rw [TokenSource.segmentsWithin, TokenSource.segmentsWithin]
    generalize s.segment line t = step at hstep ⊢
    generalize s'.segment line u = step' at hstep ⊢
    obtain ⟨text, next⟩ := step
    obtain ⟨text', next'⟩ := step'
    obtain ⟨rfl, hnext⟩ := hstep
    cases hnext with
    | none => rfl
    | some hnext => exact congrArg (Option.map (text ++ ·)) (ih hnext)

theorem upperHint? (h : s.Agree s' line) (boundary : ImportBoundary) (ht : t.Alike u) :
    s.upperHint? boundary line t = s'.upperHint? boundary line u := by
  rw [TokenSource.upperHint?, TokenSource.upperHint?, TokenSource.segments?,
    TokenSource.segments?, h.segmentsWithin _ ht, h.qualifiers ht, ht.text, ht.stop, h.lineText]

theorem nameHint? (h : s.Agree s' line) (boundary : ImportBoundary) (ht : t.Alike u) :
    s.nameHint? boundary line t = s'.nameHint? boundary line u := by
  rw [TokenSource.nameHint?, TokenSource.nameHint?, TokenSource.lowerHint,
    TokenSource.lowerHint, h.qualifiers ht, ht.text, h.upperHint? boundary ht]
  rcases Category.eq_or_of_ifClosed_eq ht.category with heq | ⟨hc | hc, hd | hd⟩
  · rw [heq]
  all_goals rw [hc, hd]

theorem tokenHint? (h : s.Agree s' line) (boundary : ImportBoundary) (ht : t.Alike u) :
    s.tokenHint? boundary line t = s'.tokenHint? boundary line u := by
  have hkeyword : t.category = .keyword ↔ u.category = .keyword :=
    Category.eq_iff_of_ifClosed_eq ht.category (by decide)
  simp only [TokenSource.tokenHint?, hkeyword, ht.text, h.nameHint? boundary (h.after ht),
    h.nameHint? boundary ht, TokenSource.wordHint, h.lineText]

/-- **Sources that agree on the line of a cursor have the same hint there**,
or the walk ends in neither. -/
theorem resolve?_eq {selection : Selection} (h : s.Agree s' selection.head.line)
    (boundary : ImportBoundary) :
    s.resolve? boundary selection = s'.resolve? boundary selection := by
  rw [TokenSource.resolve?, TokenSource.resolve?, h.tokenHint? boundary (h.tokenAt _)]

end Agree

end TokenSource

/-! ## The document -/

namespace LineToken

/-- Tokens that agree but for errors are seen alike. -/
theorem alike_view {t u : LineToken} (h : t.ifClosed = u.ifClosed) : t.view.Alike u.view := by
  obtain ⟨hkind, htext, hstart, hstop⟩ := LineToken.mk.inj h
  refine ⟨?_, htext, hstart, hstop⟩
  have hcategory := congrArg (fun kind : TokenKind => kind.category.ifClosed) hkind
  rwa [TokenKind.ifClosed_category, TokenKind.ifClosed_category] at hcategory

end LineToken

namespace Document

open Text

variable {p : Text} {line : UInt32}

/-- A token is looked up by its columns, which closing it does not change. -/
theorem ifClosed_tokenAt (d : Document) (pos : Position) :
    (d.tokenAt pos).ifClosed
      = if pos.column = 0 then LineToken.none
        else
          let tokens := (d.lineTokens pos.line).map LineToken.ifClosed
          (tokens.find? (pos.column ≤ ·.stop)).getD (tokens.getLastD LineToken.none) := by
  unfold tokenAt
  split_ifs
  · rfl
  · have hlast : ((d.lineTokens pos.line).map LineToken.ifClosed).getLastD LineToken.none
        = ((d.lineTokens pos.line).getLastD LineToken.none).ifClosed := by
      rw [List.getLastD_eq_getLast?, List.getLastD_eq_getLast?, List.getLast?_map]
      exact Option.getD_map LineToken.ifClosed LineToken.none _
    dsimp only
    rw [List.find?_map, hlast, Option.getD_map]
    rfl

/-- **The documents of a text and of a longer one agree on every line that ends
inside it.** -/
theorem agree_append (hp : Ended p) (hline : line.toNat < p.count '\n') (r : Text) :
    (ofText (p ++ r)).source.Agree (ofText p).source line where
  lineText := lineText_append hp hline r
  tokenAt column := by
    refine LineToken.alike_view ?_
    rw [ifClosed_tokenAt, ifClosed_tokenAt, map_ifClosed_lineTokens_append hp hline]

/-- **Text below the line of a cursor never changes a hint.** -/
theorem resolve?_append (p : Text) (hp : p.getLast? = some '\n') (r r' : Text)
    (boundary : ImportBoundary) (selection : Selection)
    (hline : selection.head.line.toNat < p.count '\n') :
    (ofText (p ++ r)).source.resolve? boundary selection
      = (ofText (p ++ r')).source.resolve? boundary selection := by
  have hagree := fun u => (agree_append hp hline u).resolve?_eq boundary
  exact (hagree r).trans (hagree r').symm

/-- A string that the text below closes is an error without it, and has no hint
either way. -/
theorem resolve?_append_triple :
    ['\n', 'x', '"', '"', '"', 'A', '\n'].getLast? = some '\n'
    ∧ (1 : UInt32).toNat < ['\n', 'x', '"', '"', '"', 'A', '\n'].count '\n'
    ∧ (ofText (['\n', 'x', '"', '"', '"', 'A', '\n'] ++ [])).tokenAt ⟨1, 5⟩
      ≠ (ofText (['\n', 'x', '"', '"', '"', 'A', '\n'] ++ ['"', '"', '"'])).tokenAt ⟨1, 5⟩
    ∧ (ofText (['\n', 'x', '"', '"', '"', 'A', '\n'] ++ [])).source.resolve? .empty
        ⟨⟨1, 5⟩, ⟨1, 5⟩⟩
      = (ofText (['\n', 'x', '"', '"', '"', 'A', '\n'] ++ ['"', '"', '"'])).source.resolve? .empty
        ⟨⟨1, 5⟩, ⟨1, 5⟩⟩ :=
  ⟨by decide, by decide, by decide +kernel,
    resolve?_append _ (by decide) _ _ .empty ⟨⟨1, 5⟩, ⟨1, 5⟩⟩ (by decide)⟩

end Document

end EditorCore
