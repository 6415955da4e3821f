import EditorCore.Proofs.Document.Words
import EditorCore.Proofs.Hint.ByIndex

/-!
# The clauses of an import

On the line of an import, the name of the module is told by what comes after it, the
text of a clause, and either clause will do. A name that is written behind one of the
clauses is behind the first occurrence of its text, so that clause does not tag it
(`Document.not_endsBefore_of_follows`). But the other one may: if a later name holds the
text of the other clause or that clause is yet to come, the name is taken for that of
the module. So an alias is tagged exactly before an `exposing`, an exposed name exactly
before an `as`, and an exposed name behind an alias never
(`Document.resolve?_follows_clause`).
-/

namespace EditorCore

namespace Text

variable {line part : Text} {stop : UInt32} {n : Nat}

/-- **A token that ends at `stop` ends before a text**, wherever that first occurs on
the line. -/
def EndsBefore (line : Text) (stop : UInt32) (part : Text) : Prop :=
  ∃ n, line.FirstAt part n ∧ stop.toNat < width (line.take n)

/-- Nothing ends before what occurs in front of it. -/
theorem not_endsBefore (hpart : part <+: line.drop n) (hn : width (line.take n) ≤ stop.toNat) :
    ¬ line.EndsBefore stop part := by
  rintro ⟨m, ⟨-, -, hfirst⟩, hstop⟩
  have hle : m ≤ n := Nat.le_of_not_lt fun hlt => hfirst n hlt hpart
  have hmono : width (line.take m) ≤ width (line.take n) := measure_take_mono hle
  omega

/-- On the line of an import it is the clauses that count. -/
theorem namesModule_iff_endsBefore (himport : line.StartsWithWord "import".toList) :
    line.NamesModule stop
      ↔ line.EndsBefore stop "as".toList ∨ line.EndsBefore stop "exposing".toList := by
  have hpos : ∀ part, (∃ n, line.FirstAt part n ∧ 0 < width (line.take n)
      ∧ stop.toNat < width (line.take n)) ↔ line.EndsBefore stop part := fun part =>
    exists_congr fun n => and_congr_right fun _ =>
      ⟨fun h => h.2, fun h => ⟨Nat.zero_lt_of_lt h, h⟩⟩
  unfold NamesModule
  rw [and_iff_right himport, List.exists_mem_cons_iff, List.exists_mem_cons_iff, hpos, hpos]
  simp only [List.not_mem_nil, false_and, exists_false, or_false]

end Text

namespace LineToken

open Text (IsWord)

variable {left : List LineToken} {t : LineToken}

/-- **A qualified name starts with a capital letter**, if its segments do. -/
theorem isUpper_pathBefore_append :
    ∀ {left : List LineToken} {t : LineToken},
      (∀ u ∈ t :: left, u.category = .upperIdentifier → IsWord Char.isUpper u.text) →
      t.category = .upperIdentifier →
        ∃ c rest, pathBefore left ++ t.text = c :: rest ∧ c.isUpper
  | [], t, hwords, ht | [_], t, hwords, ht => by
    obtain ⟨c, rest, htext, hc, -⟩ := hwords t List.mem_cons_self ht
    exact ⟨c, rest, htext, hc⟩
  | dot :: seg :: left, t, hwords, ht => by
    rw [pathBefore_cons_cons]
    split_ifs with hseg
    · have hwords' : ∀ u ∈ seg :: left, u.category = .upperIdentifier → IsWord Char.isUpper u.text :=
        fun u hu => hwords u (List.mem_cons_of_mem _ (List.mem_cons_of_mem _ hu))
      obtain ⟨c, rest, htext, hc⟩ := isUpper_pathBefore_append hwords' hseg.2
      exact ⟨c, rest ++ ['.'] ++ t.text, by rw [htext]; rfl, hc⟩
    · obtain ⟨c, rest, htext, hc, -⟩ := hwords t List.mem_cons_self ht
      exact ⟨c, rest, htext, hc⟩

end LineToken

theorem TokenKind.category_eq_upperIdentifier_iff {kind : TokenKind} :
    kind.category = .upperIdentifier ↔ kind = .upperIdent := by
  cases kind <;> decide

namespace Document

open LineToken (pathBefore pathAfter spelling)

variable {d : Document} {line : UInt32} {p : Position} {boundary : ImportBoundary}
  {left right : List LineToken} {t u : LineToken}

/-! ## Words among the tokens of a line -/

/-- The lexemes of a line are those of its tokens. -/
theorem row_eq_of_lineTokens (hts : d.lineTokens line = left ++ t :: right) :
    d.row line = left.map LineToken.lexeme ++ t.lexeme :: right.map LineToken.lexeme := by
  rw [← Lexeme.map_lexeme_placeRow 0 (d.row line), ← lineTokens_eq_placeRow, hts,
    List.map_append, List.map_cons]

/-- **A word of a line is in its place** in the source, and what follows it on the line
follows it there. -/
theorem exists_inPlace (hts : d.lineTokens line = left ++ t :: right) (hword : t.kind.IsWord) :
    ∃ before after, t.lexeme.InPlace d.text before after
      ∧ spelling right <+: Lexeme.texts after := by
  obtain ⟨before, after, hsource, hrest⟩ :=
    exists_lexeme_of_row (row_eq_of_lineTokens hts) hword
  rw [Lexeme.texts, List.flatMap_map] at hrest
  exact ⟨before, after, Lexeme.inPlace_of_ofSource_eq hsource, hrest⟩

/-- A reserved word is spelled as such on its line. -/
theorem text_eq_of_reserved {entry : Text × TokenKind} (hentry : entry ∈ reservedWords)
    (hts : d.lineTokens line = left ++ t :: right) (ht : t.kind = entry.2) :
    t.text = entry.1 := by
  have hword : t.kind.IsWord := .inr (.inr (TokenKind.isKeyword_iff.2 ⟨entry, hentry, ht.symm⟩))
  obtain ⟨before, after, hplace, -⟩ := exists_inPlace hts hword
  exact (hplace.reserved entry hentry).1 ht

/-- An upper-case identifier of a line is spelled as one. -/
theorem isWord_of_upperIdentifier (ht : t ∈ d.lineTokens line)
    (hupper : t.category = .upperIdentifier) : t.text.IsWord Char.isUpper := by
  obtain ⟨left, right, hts⟩ := List.append_of_mem ht
  have hkind := TokenKind.category_eq_upperIdentifier_iff.1 hupper
  obtain ⟨before, after, hplace, -⟩ := exists_inPlace hts (.inl hkind)
  exact hplace.upper.1 hkind

/-- **A line whose first token is `import` starts with that word.** -/
theorem startsWithWord_import (hts : d.lineTokens line = t :: right) (ht : t.kind = .kwImport) :
    (d.lineText line).StartsWithWord "import".toList := by
  have hentry : ("import".toList, TokenKind.kwImport) ∈ reservedWords := by simp [reservedWords]
  rw [← List.nil_append (t :: right)] at hts
  have htext := text_eq_of_reserved hentry hts ht
  have hword : t.kind.IsWord := .inr (.inr (ht ▸ rfl))
  obtain ⟨before, after, hplace, hrest⟩ := exists_inPlace hts hword
  refine ⟨spelling right, ?_, fun c hc => ?_⟩
  · rw [← texts_row, row_eq_of_lineTokens hts, List.map_nil, List.nil_append,
      Lexeme.texts_cons, Lexeme.texts, List.flatMap_map]
    exact congrArg (· ++ spelling right) htext
  · obtain ⟨tail, htail⟩ := hrest
    have hend := hplace.word_ends hword c
    rw [← htail, List.head?_append_of_ne_nil _ (List.ne_nil_of_mem (List.mem_of_head? hc))] at hend
    exact hend hc

/-- A token stops at the width of what is spelled up to its end. -/
theorem toNat_stop (hw : (d.lineText line).width < UInt32.size)
    (hts : d.lineTokens line = left ++ t :: right) :
    t.stop.toNat = (spelling left).width + t.text.width := by
  have hrow := row_eq_of_lineTokens hts
  have hplaced := lineTokens_eq_placeRow d line
  rw [hts, hrow, Lexeme.placeRow_append] at hplaced
  have hlength : left.length = (Lexeme.placeRow 0 (left.map LineToken.lexeme)).length := by
    conv_lhs => rw [← List.length_map LineToken.lexeme]
    conv_rhs => rw [← List.length_map LineToken.lexeme, Lexeme.map_lexeme_placeRow]
  obtain ⟨ht, -⟩ := List.cons.inj (List.append_inj hplaced hlength).2
  have hfits : (spelling left).width + t.text.width < UInt32.size := by
    rw [← (tiles_lineTokens hw).spells, hts, List.flatMap_append, List.flatMap_cons,
      Text.width_append, Text.width_append] at hw
    unfold spelling
    omega
  have htexts : Lexeme.texts (left.map LineToken.lexeme) = spelling left :=
    List.flatMap_map _ _ _
  rw [ht, htexts, Nat.zero_add]
  exact UInt32.toNat_ofNat_of_lt' hfits

/-! ## Names behind a clause -/

/-- **A token follows one of a kind** on its line. -/
def Follows (d : Document) (p : Position) (kind : TokenKind) : Prop :=
  ∃ left right, d.lineTokens p.line = left ++ d.tokenAt p :: right ∧ ∃ u ∈ left, u.kind = kind

/-- **A token behind a reserved word does not end before that word**, wherever it first
occurs on the line. -/
theorem not_endsBefore_of_follows (hw : (d.lineText p.line).width < UInt32.size)
    {entry : Text × TokenKind} (hentry : entry ∈ reservedWords) (h : d.Follows p entry.2) :
    ¬ (d.lineText p.line).EndsBefore (d.tokenAt p).stop entry.1 := by
  obtain ⟨left, right, hts, u, hu, hkind⟩ := h
  obtain ⟨before, after, rfl⟩ := List.append_of_mem hu
  have htiles := tiles_lineTokens hw
  have hle : u.stop.toNat ≤ (d.tokenAt p).stop.toNat := by
    have hstop := (hts ▸ htiles).stop_le_start hu
    have hspan := (hts ▸ htiles).start_lt_stop
    omega
  rw [List.append_assoc, List.cons_append] at hts
  have hspells : d.lineText p.line
      = spelling before ++ (entry.1 ++ spelling (after ++ d.tokenAt p :: right)) := by
    rw [← text_eq_of_reserved hentry hts hkind, ← htiles.spells, hts, List.flatMap_append,
      List.flatMap_cons]
    rfl
  have hwidth := toNat_stop hw hts
  refine Text.not_endsBefore (n := (spelling before).length) ?_ ?_
  · rw [hspells, List.drop_left]
    exact List.prefix_append _ _
  · rw [hspells, List.take_left]
    omega

/-- A cursor is at a token of its line, or at none. -/
theorem tokenAt_mem (d : Document) (p : Position) :
    d.tokenAt p ∈ d.lineTokens p.line ∨ d.tokenAt p = LineToken.none := by
  unfold tokenAt
  dsimp only
  split_ifs with hcolumn
  · exact .inr rfl
  · cases hfind : (d.lineTokens p.line).find? (p.column ≤ ·.stop) with
    | some t => exact .inl (List.mem_of_find?_eq_some hfind)
    | none =>
      rw [Option.getD_none]
      rcases List.eq_nil_or_concat' (d.lineTokens p.line) with hnil | ⟨ts, t, hts⟩
      · exact .inr (hnil ▸ rfl)
      · rw [hts, List.getLastD_concat]
        exact .inl (List.mem_append_right ts List.mem_cons_self)

/-- **The hint of an upper-case identifier** is a name that starts with a capital
letter, tagged where it names the module of an import. -/
theorem exists_resolve?_upper (hw : (d.lineText p.line).width < UInt32.size)
    (hupper : (d.tokenAt p).category = .upperIdentifier) (boundary : ImportBoundary) :
    ∃ c rest, c.isUpper ∧ d.source.resolve? boundary (.cursor p)
      = some (some (if p.line < boundary.endLine
          ∧ (d.lineText p.line).NamesModule (d.tokenAt p).stop then moduleTag ++ c :: rest
        else c :: rest)) := by
  have hmem : d.tokenAt p ∈ d.lineTokens p.line :=
    (d.tokenAt_mem p).resolve_right fun hnone => absurd (hnone ▸ hupper) (by decide)
  obtain ⟨left, right, hts⟩ := List.append_of_mem hmem
  have hts' : d.lineTokens p.line = left.reverse.reverse ++ d.tokenAt p :: right := by
    rw [List.reverse_reverse, hts]
  have hwords : ∀ u ∈ d.tokenAt p :: left.reverse, u.category = .upperIdentifier →
      u.text.IsWord Char.isUpper := by
    intro u hu
    have hline : u ∈ d.lineTokens p.line := by
      rw [hts]
      rcases List.mem_cons.1 hu with rfl | hu
      · exact List.mem_append_right _ List.mem_cons_self
      · exact List.mem_append_left _ (List.mem_reverse.1 hu)
    exact isWord_of_upperIdentifier hline
  obtain ⟨c, rest, hname, hc⟩ := LineToken.isUpper_pathBefore_append hwords hupper
  refine ⟨c, rest ++ pathAfter right, hc, ?_⟩
  have hupperHint := @upperHint?_view d boundary _ _ _ _ hw hts'
  rw [hname] at hupperHint
  have hnameHint : d.source.nameHint? boundary p.line (d.tokenAt p).view
      = (d.source.upperHint? boundary p.line (d.tokenAt p).view).map some := by
    have hview : (d.tokenAt p).view.category = .upperIdentifier := hupper
    rw [TokenSource.nameHint?, hview]
  have hkeyword : (d.tokenAt p).view.category ≠ .keyword := by
    show (d.tokenAt p).category ≠ .keyword
    rw [hupper]
    decide
  have hcursor : (Selection.cursor p).isEmpty := decide_eq_true rfl
  rw [TokenSource.resolve?, if_pos hcursor]
  show d.source.tokenHint? boundary p.line (d.tokenAt p).view = _
  rw [TokenSource.tokenHint?, if_neg hkeyword, hnameHint, hupperHint]
  rfl

/-- A name is no tag. -/
theorem not_moduleTag_of_isUpper {c : Char} (hc : c.isUpper) (rest : Text) :
    ¬ moduleTag <+: c :: rest := by
  rintro ⟨tail, htail⟩
  obtain rfl : 'm' = c := (List.cons.inj htail).1
  exact absurd hc (by decide)

/-- **Which names of an import are tagged.** On the line of an import within the boundary
every cursor at an upper-case identifier has a hint. Behind `as` it carries the tag of a
module exactly if the identifier ends before the first `exposing` on the line, behind
`exposing` exactly if it ends before the first `as`, and behind both never. Columns are
counted in words. -/
theorem resolve?_follows_clause (d : Document) (boundary : ImportBoundary) (p : Position)
    (hw : (d.lineText p.line).width < UInt32.size) (hline : boundary.contains p.line)
    (himport : ∃ t ∈ (d.lineTokens p.line).head?, t.kind = .kwImport)
    (hupper : (d.tokenAt p).category = .upperIdentifier) :
    ∃ hint, d.source.resolve? boundary (.cursor p) = some (some hint)
      ∧ (d.Follows p .kwAs → (moduleTag <+: hint
          ↔ (d.lineText p.line).EndsBefore (d.tokenAt p).stop "exposing".toList))
      ∧ (d.Follows p .kwExposing → (moduleTag <+: hint
          ↔ (d.lineText p.line).EndsBefore (d.tokenAt p).stop "as".toList))
      ∧ (d.Follows p .kwAs → d.Follows p .kwExposing → ¬ moduleTag <+: hint) := by
  have has : ("as".toList, TokenKind.kwAs) ∈ reservedWords := by simp [reservedWords]
  have hexposing : ("exposing".toList, TokenKind.kwExposing) ∈ reservedWords := by
    simp [reservedWords]
  obtain ⟨c, rest, hc, hhint⟩ := exists_resolve?_upper hw hupper boundary
  obtain ⟨t, hfirst, hkind⟩ := himport
  obtain ⟨right, hts⟩ := List.head?_eq_some_iff.1 hfirst
  have htagged : (p.line < boundary.endLine
      ∧ (d.lineText p.line).NamesModule (d.tokenAt p).stop)
      ↔ (d.lineText p.line).EndsBefore (d.tokenAt p).stop "as".toList
        ∨ (d.lineText p.line).EndsBefore (d.tokenAt p).stop "exposing".toList := by
    rw [← Text.namesModule_iff_endsBefore (startsWithWord_import hts hkind)]
    exact and_iff_right (of_decide_eq_true hline)
  have htagIff : ∀ hint, d.source.resolve? boundary (.cursor p) = some (some hint) →
      (moduleTag <+: hint
        ↔ (d.lineText p.line).EndsBefore (d.tokenAt p).stop "as".toList
          ∨ (d.lineText p.line).EndsBefore (d.tokenAt p).stop "exposing".toList) := by
    intro hint h
    obtain rfl := Option.some.inj (Option.some.inj (hhint.symm.trans h))
    rw [← htagged]
    split_ifs with htag
    · exact iff_of_true (List.prefix_append _ _) htag
    · exact iff_of_false (not_moduleTag_of_isUpper hc rest) htag
  refine ⟨_, hhint, fun hfollows => ?_, fun hfollows => ?_, fun hfollows hfollows' => ?_⟩
  · rw [htagIff _ hhint, or_iff_right (not_endsBefore_of_follows hw has hfollows)]
  · rw [htagIff _ hhint, or_iff_left (not_endsBefore_of_follows hw hexposing hfollows)]
  · rw [htagIff _ hhint, not_or]
    exact ⟨not_endsBefore_of_follows hw has hfollows,
      not_endsBefore_of_follows hw hexposing hfollows'⟩

/-- A name that is exposed under the alias of its module. -/
theorem resolve?_follows_clause_both :
    let d := ofText "import Dom as Html exposing (Html)".toList
    (d.lineText 0).width < UInt32.size ∧ (ImportBoundary.upTo 1).contains 0
    ∧ (∃ t ∈ (d.lineTokens 0).head?, t.kind = .kwImport)
    ∧ (d.tokenAt ⟨0, 31⟩).category = .upperIdentifier
    ∧ d.Follows ⟨0, 31⟩ .kwAs ∧ d.Follows ⟨0, 31⟩ .kwExposing
    ∧ ∃ hint, d.source.resolve? (.upTo 1) (.cursor ⟨0, 31⟩) = some (some hint)
        ∧ ¬ moduleTag <+: hint := by
  intro d
  have hw : (d.lineText 0).width < UInt32.size := by decide +kernel
  have hline : (ImportBoundary.upTo 1).contains 0 := by decide
  have himport : ∃ t ∈ (d.lineTokens 0).head?, t.kind = .kwImport := by decide +kernel
  have hupper : (d.tokenAt ⟨0, 31⟩).category = .upperIdentifier := by decide +kernel
  have hsplit : d.lineTokens 0 = (d.lineTokens 0).take 11 ++ d.tokenAt ⟨0, 31⟩
      :: (d.lineTokens 0).drop 12 := by decide +kernel
  have has : d.Follows ⟨0, 31⟩ .kwAs := ⟨_, _, hsplit, by decide +kernel⟩
  have hexposing : d.Follows ⟨0, 31⟩ .kwExposing := ⟨_, _, hsplit, by decide +kernel⟩
  obtain ⟨hint, hhint, -, -, hboth⟩ :=
    resolve?_follows_clause d (.upTo 1) ⟨0, 31⟩ hw hline himport hupper
  exact ⟨hw, hline, himport, hupper, has, hexposing, hint, hhint, hboth has hexposing⟩

/-- An alias before an `exposing`, and an exposed name before one that holds `as`: both
are tagged. -/
theorem resolve?_follows_clause_tagged :
    (let d := ofText "import Html as H exposing (div)".toList
     (ImportBoundary.upTo 1).contains 0
      ∧ (∃ t ∈ (d.lineTokens 0).head?, t.kind = .kwImport)
      ∧ (d.tokenAt ⟨0, 16⟩).category = .upperIdentifier ∧ d.Follows ⟨0, 16⟩ .kwAs
      ∧ d.source.resolve? (.upTo 1) (.cursor ⟨0, 16⟩) = some (some (moduleTag ++ "H".toList)))
    ∧ (let d := ofText "import Html exposing (Html, class)".toList
       (ImportBoundary.upTo 1).contains 0
      ∧ (∃ t ∈ (d.lineTokens 0).head?, t.kind = .kwImport)
      ∧ (d.tokenAt ⟨0, 26⟩).category = .upperIdentifier ∧ d.Follows ⟨0, 26⟩ .kwExposing
      ∧ d.source.resolve? (.upTo 1) (.cursor ⟨0, 26⟩)
        = some (some (moduleTag ++ "Html".toList))) := by
  constructor
  · intro d
    have hsplit : d.lineTokens 0 = (d.lineTokens 0).take 6 ++ d.tokenAt ⟨0, 16⟩
        :: (d.lineTokens 0).drop 7 := by decide +kernel
    exact ⟨by decide, by decide +kernel, by decide +kernel, ⟨_, _, hsplit, by decide +kernel⟩,
      by decide +kernel⟩
  · intro d
    have hsplit : d.lineTokens 0 = (d.lineTokens 0).take 7 ++ d.tokenAt ⟨0, 26⟩
        :: (d.lineTokens 0).drop 8 := by decide +kernel
    exact ⟨by decide, by decide +kernel, by decide +kernel, ⟨_, _, hsplit, by decide +kernel⟩,
      by decide +kernel⟩

end Document

end EditorCore
