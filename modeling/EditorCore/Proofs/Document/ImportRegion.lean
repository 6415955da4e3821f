import EditorCore.ImportRegion
import EditorCore.Proofs.Document.Prefix

/-!
# Where the import region ends

The import region ends at the first line that ends it (`Document.importRegionEnd_eq_iff`),
and whether a line does is seen from its tokens. Those come from lexing all of the
buffer, text below the line included. But what depends on that text is whether a piece
is one of a string or of an error, and neither is trivia or starts a header
(`LineToken.endsImports_congr`). So the end of the region only depends on the lines above
and at it (`Document.importRegionEnd_append`).
-/

namespace EditorCore

/-! ## Lines that end the region -/

namespace TokenKind

theorem isTrivia_ifClosed (kind : TokenKind) : kind.ifClosed.isTrivia = kind.isTrivia := by
  cases kind <;> rfl

theorem ifClosed_eq_kwModule {kind : TokenKind} :
    kind.ifClosed = .kwModule ↔ kind = .kwModule := by
  cases kind <;> decide

end TokenKind

namespace LineToken

variable {ts us : List LineToken}

/-- Neither a string nor an error starts a header. -/
theorem startsHeader_map_ifClosed (ts : List LineToken) :
    startsHeader (ts.map ifClosed) = startsHeader ts := by
  cases ts with
  | nil => rfl
  | cons first rest =>
    have hnext : (rest.map ifClosed).head?.any (·.kind = .kwModule)
        = rest.head?.any (·.kind = .kwModule) := by
      cases rest with
      | nil => rfl
      | cons next rest => exact decide_eq_decide.2 TokenKind.ifClosed_eq_kwModule
    obtain ⟨kind, text, start, stop⟩ := first
    cases kind with
    | kwPort => exact hnext
    | lowerIdent => exact congrArg (decide (text = "effect".toList) && ·) hnext
    | _ => rfl

theorem endsImports_map_ifClosed (ts : List LineToken) :
    endsImports (ts.map ifClosed) = endsImports ts := by
  have hfilter : (ts.map ifClosed).filter (!·.kind.isTrivia)
      = (ts.filter (!·.kind.isTrivia)).map ifClosed := by
    rw [List.filter_map]
    refine congrArg (List.map ifClosed) (List.filter_congr fun t _ => ?_)
    exact congrArg (!·) t.kind.isTrivia_ifClosed
  unfold endsImports
  rw [hfilter]
  cases ts.filter (!·.kind.isTrivia) with
  | nil => rfl
  | cons first rest =>
    exact congrArg (fun header => decide (first.start = 0) && !header)
      (startsHeader_map_ifClosed (first :: rest))

/-- **Tokens that agree but for errors end the region alike.** -/
theorem endsImports_congr (h : ts.map ifClosed = us.map ifClosed) :
    endsImports ts = endsImports us := by
  rw [← endsImports_map_ifClosed ts, h, endsImports_map_ifClosed]

theorem endsImports_of_startsHeader (h : startsHeader (ts.filter (!·.kind.isTrivia))) :
    endsImports ts = false := by
  unfold endsImports
  dsimp only
  split
  · rfl
  · rw [h, Bool.not_true, Bool.and_false]

/-- Trivia before other tokens has no part in it. -/
theorem endsImports_cons_of_isTrivia {t : LineToken} (ht : t.kind.isTrivia)
    (ts : List LineToken) : endsImports (t :: ts) = endsImports ts := by
  unfold endsImports
  rw [List.filter_cons_of_neg (by rw [ht]; exact Bool.false_ne_true)]

/-- **A token that starts a line and no header** ends the region. -/
theorem endsImports_cons {t : LineToken} (ht : t.kind.isTrivia = false) (hstart : t.start = 0)
    (hheader : ∀ rest, startsHeader (t :: rest) = false) (ts : List LineToken) :
    endsImports (t :: ts) := by
  unfold endsImports
  rw [List.filter_cons_of_pos (by rw [ht]; rfl)]
  dsimp only
  rw [hstart, hheader]
  rfl

/-- **No token behind the first column ends the region**, as long as columns are words. -/
theorem endsImports_placeRow {column : Nat} (hcolumn : 0 < column) {ls : List Lexeme}
    (hw : column + (Lexeme.texts ls).width < UInt32.size) :
    endsImports (Lexeme.placeRow column ls) = false := by
  unfold endsImports
  dsimp only
  split
  · rfl
  · rename_i first rest heq
    have hmem : first ∈ Lexeme.placeRow column ls :=
      List.mem_of_mem_filter (heq ▸ List.mem_cons_self)
    obtain ⟨before, l, after, rfl, rfl⟩ := Lexeme.mem_placeRow hmem
    rw [Lexeme.texts_append, Text.width_append] at hw
    have hstart : UInt32.ofNat (column + (Lexeme.texts before).width) ≠ 0 := by
      intro hzero
      have h := congrArg UInt32.toNat hzero
      rw [UInt32.toNat_ofNat_of_lt' (by omega)] at h
      exact absurd h (by simp only [UInt32.toNat_zero]; omega)
    rw [decide_eq_false hstart, Bool.false_and]

end LineToken

/-! ## The first of them -/

namespace Document

variable {d : Document} {line : UInt32}

theorem length_tokens (d : Document) : d.tokens.length = d.lines.length := by
  rw [d.tokens_eq, d.lines_eq, Text.lineTokens, List.length_map, Lexeme.rows_eq_map_cut,
    List.length_map, Lexeme.length_spans, Lexeme.texts_ofSource, Text.lines, List.length_map]

theorem findIdx?_tokens_eq_some_iff :
    d.tokens.findIdx? LineToken.endsImports = some line.toNat
      ↔ LineToken.endsImports (d.lineTokens line)
        ∧ ∀ i < line, ¬ LineToken.endsImports (d.lineTokens i) := by
  have hget (i : UInt32) {j : Nat} (hi : i.toNat = j) (hj : j < d.tokens.length) :
      d.tokens[j] = d.lineTokens i := by
    subst hi
    exact (List.getD_eq_getElem _ _ hj).symm
  rw [List.findIdx?_eq_some_iff_getElem]
  constructor
  · rintro ⟨hlt, hends, hfirst⟩
    refine ⟨hget line rfl hlt ▸ hends, fun i hi => ?_⟩
    have hi' := UInt32.lt_iff_toNat_lt.1 hi
    rw [← hget i rfl (hi'.trans hlt)]
    exact hfirst i.toNat hi'
  · rintro ⟨hends, hfirst⟩
    have hlt : line.toNat < d.tokens.length := by
      by_contra hge
      rw [lineTokens, List.getD_eq_default _ _ (Nat.le_of_not_lt hge)] at hends
      exact absurd hends (by decide)
    refine ⟨hlt, hget line rfl hlt ▸ hends, fun j hj => ?_⟩
    have hword : (UInt32.ofNat j).toNat = j :=
      UInt32.toNat_ofNat_of_lt' (hj.trans line.toNat_lt)
    rw [hget _ hword (hj.trans hlt)]
    exact hfirst _ (UInt32.lt_iff_toNat_lt.2 (hword.symm ▸ hj))

/-- The region ends at the first line that ends it. -/
theorem importRegionEnd_eq (hends : LineToken.endsImports (d.lineTokens line))
    (hfirst : ∀ i < line, ¬ LineToken.endsImports (d.lineTokens i)) :
    d.importRegionEnd = line := by
  rw [importRegionEnd, findIdx?_tokens_eq_some_iff.2 ⟨hends, hfirst⟩, Option.getD_some,
    UInt32.ofNat_toNat]

/-- **The region ends at a line of the document exactly where that is the first line to
end it**, as long as lines are counted in words. -/
theorem importRegionEnd_eq_iff (hlines : d.lines.length < UInt32.size)
    (hline : line.toNat < d.lines.length) :
    d.importRegionEnd = line
      ↔ LineToken.endsImports (d.lineTokens line)
        ∧ ∀ i < line, ¬ LineToken.endsImports (d.lineTokens i) := by
  refine ⟨fun h => findIdx?_tokens_eq_some_iff.1 ?_, fun h => importRegionEnd_eq h.1 h.2⟩
  rw [importRegionEnd] at h
  cases hfind : d.tokens.findIdx? LineToken.endsImports with
  | none =>
    rw [hfind, Option.getD_none] at h
    rw [← h, UInt32.toNat_ofNat_of_lt' hlines] at hline
    exact absurd hline (Nat.lt_irrefl _)
  | some j =>
    obtain ⟨hj, -⟩ := List.findIdx?_eq_some_iff_getElem.1 hfind
    rw [length_tokens] at hj
    rw [hfind, Option.getD_some] at h
    rw [← h, UInt32.toNat_ofNat_of_lt' (hj.trans hlines)]

/-! ## Text below -/

/-- **Text below the line where the region ends does not move it.** The line ends inside a
text that ends with a line feed, and any text may follow that instead; lines are counted
in words. -/
theorem importRegionEnd_append (p : Text) (hp : p.getLast? = some '\n') (r r' : Text)
    (hlines : (ofText (p ++ r)).lines.length < UInt32.size)
    (hend : (ofText (p ++ r)).importRegionEnd.toNat < p.count '\n') :
    (ofText (p ++ r')).importRegionEnd = (ofText (p ++ r)).importRegionEnd := by
  have hline : (ofText (p ++ r)).importRegionEnd.toNat < (ofText (p ++ r)).lines.length := by
    rw [show (ofText (p ++ r)).lines = (p ++ r).segments.map Text.dropReturn from rfl,
      List.length_map, Text.length_segments, List.count_append]
    exact hend.trans_le (Nat.le_succ_of_le (Nat.le_add_right _ _))
  obtain ⟨hends, hfirst⟩ := (importRegionEnd_eq_iff hlines hline).1 rfl
  generalize (ofText (p ++ r)).importRegionEnd = line at hend hends hfirst ⊢
  have hsame : ∀ i ≤ line, LineToken.endsImports ((ofText (p ++ r')).lineTokens i)
      = LineToken.endsImports ((ofText (p ++ r)).lineTokens i) := by
    intro i hi
    have hi' := (UInt32.le_iff_toNat_le.1 hi).trans_lt hend
    exact LineToken.endsImports_congr ((map_ifClosed_lineTokens_append hp hi' r').trans
      (map_ifClosed_lineTokens_append hp hi' r).symm)
  refine importRegionEnd_eq ?_ fun i hi => ?_
  · rwa [hsame line UInt32.le_rfl]
  · rw [hsame i (UInt32.le_of_lt hi)]
    exact hfirst i hi

/-- Three quotes end the region, whether more of them below make a string of it or not. -/
theorem importRegionEnd_append_quotes :
    let p := "import A\n\"\"\"\n".toList
    p.getLast? = some '\n' ∧ (ofText (p ++ [])).lines.length < UInt32.size
    ∧ (ofText (p ++ [])).importRegionEnd.toNat < p.count '\n'
    ∧ (ofText (p ++ [])).lineTokens 1 ≠ (ofText (p ++ "\"\"\"".toList)).lineTokens 1
    ∧ (ofText (p ++ "\"\"\"".toList)).importRegionEnd = (ofText (p ++ [])).importRegionEnd := by
  have hlines : (ofText ("import A\n\"\"\"\n".toList ++ [])).lines.length < UInt32.size := by
    decide +kernel
  have hend : (ofText ("import A\n\"\"\"\n".toList ++ [])).importRegionEnd.toNat
      < "import A\n\"\"\"\n".toList.count '\n' := by decide +kernel
  exact ⟨by decide, hlines, hend, by decide +kernel,
    importRegionEnd_append _ (by decide) _ _ hlines hend⟩

end Document

end EditorCore
