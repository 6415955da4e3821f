import EditorCore.Proofs.Document.ImportRegion
import EditorCore.Proofs.Document.Standalone
import EditorCore.Proofs.Text.Search
import EditorCore.Proofs.Token.Literals

/-!
# The lines of headers and imports

Where the import region ends can be told without lexing, from the shapes of lines. Lines
that open headers or imports, comment lines, blank and indented ones do not end it
(`Text.IsHeaderLine.endsImports`), and a line that starts with another word does
(`Text.StartsDeclaration.endsImports`).

For that the tokens of a line must not depend on the other lines. A block comment or a
string could run on over them, and a header line opens neither but behind a line comment.
So all of them stand alone (`Text.IsHeaderLine.standsAlone`), and the region ends where
the first declaration starts, whatever follows that line
(`Document.importRegionEnd_header`).
-/

namespace EditorCore

/-! ## Shapes of lines -/

namespace Text

open Lexeme

/-- The words that open headers and imports. -/
def headerWords : List Text :=
  ["import".toList, "module".toList, "port".toList, "effect".toList]

/-- **The lines of headers and imports**, comments and the lines that continue others.
Neither strings nor block comments are opened on them but behind a line comment. -/
inductive IsHeaderLine : Text → Prop
  /-- A line comment. -/
  | comment (t : Text) : IsHeaderLine ('-' :: '-' :: t)
  /-- A line that is blank, -/
  | blank {t : Text} : (∀ c ∈ t, c ∈ [' ', '\t']) → IsHeaderLine t
  /-- or indented. -/
  | indented {c : Char} {t : Text} : c ∈ [' ', '\t'] → Plain (c :: t) → IsHeaderLine (c :: t)
  /-- A line that opens a header or an import, -/
  | header {word t : Text} : word ∈ ["import".toList, "module".toList] →
      t.StartsWithWord word → Plain t → IsHeaderLine t
  /-- also one of a module with ports. -/
  | port {blanks t : Text} : blanks ≠ [] → (∀ c ∈ blanks, c ∈ [' ', '\t']) →
      t.StartsWithWord "module".toList → Plain ("port".toList ++ (blanks ++ t)) →
      IsHeaderLine ("port".toList ++ (blanks ++ t))

/-- **A line starts a declaration**: it starts with a letter or an underscore, and with
none of the words that open headers and imports. Letters beyond ASCII belong to no
name. -/
def StartsDeclaration (t : Text) : Prop :=
  (∃ c ∈ t.head?, c.isAlpha ∨ c = '_' ∨ 128 ≤ c.toNat) ∧ t.takeWhile isNameChar ∉ headerWords

variable {t : Text}

theorem isSpace_of_mem {c : Char} (hc : c ∈ [' ', '\t']) : isSpace c := by
  fin_cases hc <;> rfl

/-- On its line a line comment comes to no end. -/
theorem not_isLineEnd {c d : Char} (hline : '\n' ∉ c :: d :: t) (hret : '\r' ∉ c :: d :: t) :
    ∀ e ∈ t, isLineEnd e = false := by
  intro e he
  refine Bool.eq_false_iff.2 fun hend => ?_
  rw [isLineEnd, Bool.or_eq_true, beq_iff_eq, beq_iff_eq] at hend
  rcases hend with rfl | rfl
  · exact hret (List.mem_cons_of_mem _ (List.mem_cons_of_mem _ he))
  · exact hline (List.mem_cons_of_mem _ (List.mem_cons_of_mem _ he))

theorem IsHeaderLine.standsAlone (h : t.IsHeaderLine) (hline : '\n' ∉ t) (hret : '\r' ∉ t) :
    t.StandsAlone := by
  cases h with
  | comment u => exact standsAlone_lineComment (not_isLineEnd hline hret)
  | blank hblank => exact standsAlone_of_isSpace (fun c hc => isSpace_of_mem (hblank c hc)) hline
  | indented _ hplain => exact standsAlone_of_plain hline hplain
  | header _ _ hplain => exact standsAlone_of_plain hline hplain
  | port _ _ _ hplain => exact standsAlone_of_plain hline hplain

/-! ## Lines that do not end the region -/

/-- **A line that starts with a blank does not end the region.** -/
theorem endsImports_of_blank {c : Char} {u : Text} (hc : isSpace c)
    (hw : width (c :: u) < UInt32.size) :
    LineToken.endsImports (placeRow 0 (ofSource (c :: u))) = false := by
  obtain ⟨s, v, rfl, hs, hv⟩ := exists_takeWhile_append isSpace u
  have hblanks : ∀ d ∈ c :: s, isSpace d := List.forall_mem_cons.2 ⟨hc, hs⟩
  rw [← List.cons_append, width_append] at hw
  rw [← List.cons_append, ofSource_blanks hblanks hv, piece_of_ne_nil _ (List.cons_ne_nil c s),
    List.singleton_append, placeRow, LineToken.endsImports_cons_of_isTrivia rfl]
  refine LineToken.endsImports_placeRow (Nat.zero_add _ ▸ width_pos (List.cons_ne_nil c s)) ?_
  rwa [Nat.zero_add, texts_ofSource]

theorem ofSource_module {rest : Text} (hrest : ∀ c ∈ rest.head?, isNameChar c = false) :
    ofSource ("module".toList ++ rest) = ⟨.kwModule, "module".toList⟩ :: ofSource rest :=
  have hmodule : ("module".toList, TokenKind.kwModule) ∈ reservedWords := by simp [reservedWords]
  ofSource_reserved hmodule hrest

/-- **The lines of headers and imports do not end the region**, as long as columns are
words. -/
theorem IsHeaderLine.endsImports (h : t.IsHeaderLine) (hline : '\n' ∉ t) (hret : '\r' ∉ t)
    (hw : t.width < UInt32.size) :
    LineToken.endsImports (placeRow 0 (ofSource t)) = false := by
  cases h with
  | comment u =>
    rw [ofSource_lineComment (not_isLineEnd hline hret)]
    rfl
  | blank hblank =>
    cases t with
    | nil =>
      rw [ofSource_nil]
      rfl
    | cons c u => exact endsImports_of_blank (isSpace_of_mem (hblank c List.mem_cons_self)) hw
  | indented hc _ => exact endsImports_of_blank (isSpace_of_mem hc) hw
  | header hword hstarts _ =>
    obtain ⟨rest, rfl, hrest⟩ := hstarts
    rcases List.mem_pair.1 hword with rfl | rfl
    · have himport : ("import".toList, TokenKind.kwImport) ∈ reservedWords := by
        simp [reservedWords]
      rw [ofSource_reserved himport hrest]
      exact LineToken.endsImports_of_startsHeader rfl
    · rw [ofSource_module hrest]
      exact LineToken.endsImports_of_startsHeader rfl
  | @port blanks _ hne hblanks hstarts _ =>
    obtain ⟨rest, rfl, hrest⟩ := hstarts
    have hport : ("port".toList, TokenKind.kwPort) ∈ reservedWords := by simp [reservedWords]
    have hspace : ∀ c ∈ blanks, isSpace c := fun c hc => isSpace_of_mem (hblanks c hc)
    have hend : ∀ c ∈ (blanks ++ ("module".toList ++ rest)).head?, isNameChar c = false := by
      obtain ⟨b, bs, rfl⟩ := List.exists_cons_of_ne_nil hne
      rintro c hc
      obtain rfl := Option.some.inj hc
      have hb := hblanks b List.mem_cons_self
      fin_cases hb <;> rfl
    have hhead : ∀ c ∈ ("module".toList ++ rest).head?, isSpace c = false := by
      rintro c hc
      obtain rfl := Option.some.inj hc
      rfl
    rw [ofSource_reserved hport hend, ofSource_blanks hspace hhead, piece_of_ne_nil _ hne,
      ofSource_module hrest]
    exact LineToken.endsImports_of_startsHeader rfl

/-! ## Lines that start a declaration -/

theorem isTrivia_wordKind (word : Text) : (wordKind word).isTrivia = false :=
  forall_wordKind (P := fun kind => kind.isTrivia = false) rfl (by decide) word

/-- No other word than those of headers starts one, whatever follows it. -/
theorem startsHeader_wordKind {word : Text} (hword : word ∉ headerWords) (start stop : UInt32)
    (rest : List LineToken) :
    LineToken.startsHeader (⟨wordKind word, word, start, stop⟩ :: rest) = false := by
  have hne (entry : Text × TokenKind) (hentry : entry ∈ reservedWords)
      (hheader : entry.1 ∈ headerWords) : wordKind word ≠ entry.2 := fun h =>
    hword ((wordKind_eq_iff hentry word).1 h ▸ hheader)
  have himport := hne ("import".toList, .kwImport) (by simp [reservedWords]) (by simp [headerWords])
  have hmodule := hne ("module".toList, .kwModule) (by simp [reservedWords]) (by simp [headerWords])
  have hport := hne ("port".toList, .kwPort) (by simp [reservedWords]) (by simp [headerWords])
  unfold LineToken.startsHeader
  dsimp only
  split
  · exact absurd ‹_› himport
  · exact absurd ‹_› hmodule
  · exact absurd ‹_› hport
  · have heffect : word ≠ "effect".toList := fun h => hword (h ▸ by simp [headerWords])
    rw [decide_eq_false heffect, Bool.false_and]
  · rfl

/-- **The first lexeme of a line that starts a declaration** ends on the line, and it is
neither trivia nor the start of a header. -/
theorem exists_ofSource_declaration {c : Char} {u : Text}
    (hc : c.isAlpha ∨ c = '_' ∨ 128 ≤ c.toNat)
    (hword : (c :: u).takeWhile isNameChar ∉ headerWords) :
    ∃ l ls, ofSource (c :: u) = l :: ls ∧ l.text ≠ [] ∧ '\n' ∉ l.text ∧ l.kind.isTrivia = false
      ∧ ∀ start stop rest,
        LineToken.startsHeader (⟨l.kind, l.text, start, stop⟩ :: rest) = false := by
  obtain ⟨s, v, rfl, hs, hv⟩ := exists_takeWhile_append isNameChar u
  have hline (hc : isNameChar c) : '\n' ∉ c :: s := fun hmem =>
    absurd ((List.forall_mem_cons (p := fun d => isNameChar d = true)).2 ⟨hc, hs⟩ '\n' hmem)
      (by decide)
  by_cases hupper : c.isUpper
  · exact ⟨_, _, ofSource_upper ⟨c, s, hupper, hs⟩ hv, List.cons_ne_nil c s,
      hline (isNameChar_of_isUpper hupper), rfl, fun _ _ _ => rfl⟩
  by_cases hlower : isLowerStart c
  · have hname := isNameChar_of_isLowerStart hlower
    rw [List.takeWhile_cons_of_pos hname, takeWhile_append_of_head? hs hv] at hword
    exact ⟨_, _, ofSource_word hlower hs hv, List.cons_ne_nil c s, hline hname,
      isTrivia_wordKind _, startsHeader_wordKind hword⟩
  · -- a character that is no letter of a name is an error by itself
    have hbeyond : 128 ≤ c.toNat := by
      rw [isLowerStart, Bool.or_eq_true, not_or, beq_iff_eq] at hlower
      rw [Char.isAlpha, Bool.or_eq_true] at hc
      exact (hc.resolve_left fun h => h.elim hupper hlower.1).resolve_left hlower.2
    have hsource : ofSource (c :: (s ++ v)) = ⟨.error, [c]⟩ :: ofSource (s ++ v) :=
      ofSource_cons_append (s := []) (by decide)
        (Scan.token_of_not_startsToken (Scan.startsToken_of_le hbeyond) _)
    have hne : '\n' ∉ [c] := by
      rw [List.mem_singleton]
      rintro rfl
      exact absurd hbeyond (by decide)
    exact ⟨_, _, hsource, List.cons_ne_nil c [], hne, rfl, fun _ _ _ => rfl⟩

/-- **A line that starts a declaration ends the region**, whatever follows it. -/
theorem StartsDeclaration.endsImports (h : t.StartsDeclaration) {r : Text}
    (hr : r = [] ∨ ∃ u, r = '\n' :: u) :
    LineToken.endsImports (placeRow 0 ((rows (ofSource (t ++ r))).getD 0 [])) := by
  obtain ⟨⟨c, hhead, hc⟩, hword⟩ := h
  obtain ⟨u, rfl⟩ := List.head?_eq_some_iff.1 hhead
  have htake : (c :: u ++ r).takeWhile isNameChar = (c :: u).takeWhile isNameChar := by
    rcases hr with rfl | ⟨v, rfl⟩
    · rw [List.append_nil]
    · exact Scan.takeWhile_newline rfl _ v
  rw [← htake] at hword
  obtain ⟨l, ls, hsource, hne, hline, htrivia, hheader⟩ := exists_ofSource_declaration hc hword
  obtain ⟨row, more, hrows⟩ := List.exists_cons_of_ne_nil (rows_ne_nil ls)
  have hfirst : (rows (ofSource (c :: u ++ r))).getD 0 [] = l :: row := by
    rw [show ofSource (c :: u ++ r) = l :: ls from hsource, ← List.singleton_append, rows_append,
      hrows]
    · rfl
    · exact List.forall_mem_singleton.2 ⟨hne, hline⟩
  rw [hfirst]
  exact LineToken.endsImports_cons htrivia rfl (hheader _ _) _

end Text

namespace Document

open Text

variable {d : Document} {line : UInt32}

theorem lineText_of_not_mem (hret : '\r' ∉ d.text) :
    d.lineText line = d.text.segment line.toNat := by
  have hlast : (d.text.segment line.toNat).getLast? ≠ some '\r' := fun hlast =>
    hret (mem_of_mem_segment (List.mem_of_getLast? hlast))
  rw [lineText_eq_line, Text.line, Text.dropReturn, if_neg hlast]

/-- **Without carriage returns the tokens of a line are its row.** -/
theorem lineTokens_of_not_mem (hret : '\r' ∉ d.text) :
    d.lineTokens line
      = Lexeme.placeRow 0 ((Lexeme.rows (Lexeme.ofSource d.text)).getD line.toNat []) := by
  rw [lineTokens_eq_placeRow, row, lineText_of_not_mem hret, Lexeme.getD_rows,
    Lexeme.texts_ofSource]

/-- **The shape of lines tells where the region ends.** In a text without carriage
returns, where lines that open headers or imports or belong to them come first, it ends
at the first line that starts a declaration, whatever follows that; columns are counted
in words. -/
theorem importRegionEnd_header {text : Text} {line : UInt32} (hret : '\r' ∉ text)
    (hwords : ∀ i < line, ((ofText text).lineText i).width < UInt32.size)
    (hheader : ∀ i < line, ((ofText text).lineText i).IsHeaderLine)
    (hdecl : ((ofText text).lineText line).StartsDeclaration) :
    (ofText text).importRegionEnd = line := by
  have hsegment (i : UInt32) : (ofText text).lineText i = text.segment i.toNat :=
    lineText_of_not_mem hret
  have htokens (i : UInt32) : (ofText text).lineTokens i
      = Lexeme.placeRow 0 ((Lexeme.rows (Lexeme.ofSource text)).getD i.toNat []) :=
    lineTokens_of_not_mem hret
  have hlt : line.toNat < text.segments.length := by
    by_contra hge
    obtain ⟨⟨c, hc, -⟩, -⟩ := hdecl
    rw [hsegment, segment_of_length_le (Nat.le_of_not_lt hge)] at hc
    exact absurd hc nofun
  have hret' (i : Nat) : '\r' ∉ text.segment i := fun h => hret (mem_of_mem_segment h)
  have hstands : ∀ i < line.toNat, (text.segment i).StandsAlone := by
    intro i hi
    have hword : (UInt32.ofNat i).toNat = i :=
      UInt32.toNat_ofNat_of_lt' (hi.trans line.toNat_lt)
    have h := hheader (.ofNat i) (UInt32.lt_iff_toNat_lt.2 (hword.symm ▸ hi))
    rw [hsegment, hword] at h
    exact h.standsAlone (not_mem_segment text i) (hret' i)
  obtain ⟨hbefore, hat⟩ := Lexeme.getD_rows_of_standsAlone hlt hstands
  refine importRegionEnd_eq ?_ fun i hi => ?_
  · have hends := hdecl.endsImports (after_eq_nil_or_cons text line.toNat)
    rwa [hsegment, ← hat, ← htokens] at hends
  · have hline := hheader i hi
    have hw := hwords i hi
    rw [hsegment] at hline hw
    have hends := hline.endsImports (not_mem_segment text i.toNat) (hret' i.toNat) hw
    rw [← hbefore i.toNat (UInt32.lt_iff_toNat_lt.1 hi), ← htokens] at hends
    exact Bool.eq_false_iff.1 hends

/-- A line comment that holds what would open a block comment and a string, an import
behind which a character is left open, an empty line, one that continues others, the
header of a module with ports, and a declaration whose name starts like an import. -/
theorem importRegionEnd_header_imports :
    let text := "--\x7b-\"\nimport '\\\n\n -'a\nport \tmodule\nimports \"".toList
    '\r' ∉ text ∧ (∀ i < (5 : UInt32), ((ofText text).lineText i).width < UInt32.size)
    ∧ (∀ i < (5 : UInt32), ((ofText text).lineText i).IsHeaderLine)
    ∧ ((ofText text).lineText 5).StartsDeclaration
    ∧ (ofText text).importRegionEnd = 5 := by
  intro text
  have hlines : (ofText text).lines = [['-', '-', '{', '-', '"'],
      ['i', 'm', 'p', 'o', 'r', 't', ' ', '\'', '\\'], [], [' ', '-', '\'', 'a'],
      ['p', 'o', 'r', 't', ' ', '\t', 'm', 'o', 'd', 'u', 'l', 'e'],
      ['i', 'm', 'p', 'o', 'r', 't', 's', ' ', '"']] := by decide +kernel
  have hret : '\r' ∉ text := by decide +kernel
  have hwords : ∀ i < (5 : UInt32), ((ofText text).lineText i).width < UInt32.size := by
    intro i hi
    have hi' : i.toNat < 5 := UInt32.lt_iff_toNat_lt.1 hi
    rw [lineText, hlines]
    interval_cases i.toNat <;> decide
  have hheader : ∀ i < (5 : UInt32), ((ofText text).lineText i).IsHeaderLine := by
    intro i hi
    have hi' : i.toNat < 5 := UInt32.lt_iff_toNat_lt.1 hi
    rw [lineText, hlines]
    interval_cases i.toNat
    · exact .comment _
    · exact .header List.mem_cons_self (by decide +kernel) (by decide)
    · exact .blank nofun
    · exact .indented List.mem_cons_self (by decide)
    · exact IsHeaderLine.port (t := ['m', 'o', 'd', 'u', 'l', 'e']) (List.cons_ne_nil ' ' ['\t'])
        (fun c hc => hc) (by decide +kernel) (by decide +kernel)
  have hdecl : ((ofText text).lineText 5).StartsDeclaration := by
    rw [lineText, hlines]
    exact ⟨⟨'i', rfl, .inl rfl⟩, by decide +kernel⟩
  exact ⟨hret, hwords, hheader, hdecl, importRegionEnd_header hret hwords hheader hdecl⟩

end Document

end EditorCore
