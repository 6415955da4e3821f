import EditorCore.Proofs.Hint.Neighbours
import EditorCore.Proofs.Text.Search

/-!
# Hints by index

The resolver knows the tokens of a line only by probing columns. Here the
hint is read off the list of tokens instead: the cursor is at the token of
some index, the module path is the longest alternation of dots and
upper-case identifiers to the left of that index, and the rest of the name
is the longest one to the right with what ends it
(`Document.hintByIndex`). On a line whose columns are words, the resolver
always ends, and with that hint (`Document.resolve?_eq_hintByIndex`).

The left walk is an induction on the tokens to the left, nearest first, and
the right walk one on those to the right, both two tokens at a time. The
guards of the walks only matter where a probe leaves the line.
-/

namespace EditorCore

/-! ## Reading the line -/

namespace Text

/-- **A token that ends at `stop` names the module of an import**: the line
starts with the word `import`, and the token ends before the first `as` or
before the first `exposing`, unless that is at the start of the line. -/
def NamesModule (line : Text) (stop : UInt32) : Prop :=
  line.StartsWithWord "import".toList ∧
    ∃ clause ∈ ["as".toList, "exposing".toList], ∃ n,
      line.FirstAt clause n ∧ 0 < width (line.take n) ∧ stop.toNat < width (line.take n)

/-- **A line declares a type alias**: it starts with `type`, at least one
blank and the word `alias`. -/
def DeclaresAlias (line : Text) : Prop :=
  ∃ blanks rest, line = "type".toList ++ blanks ++ rest ∧ blanks ≠ [] ∧
    (∀ c ∈ blanks, isBlank c) ∧ rest.StartsWithWord "alias".toList

theorem columnOf?_eq_some_iff {line part : Text} {column : Nat} :
    columnOf? line part = some column ↔
      ∃ n, line.FirstAt part n ∧ width (line.take n) = column := by
  rw [columnOf?, Option.map_eq_some_iff]
  exact exists_congr fun n => and_congr_left fun _ => find?_eq_some_iff

theorem namesImportedModule_iff {line : Text} {stop : UInt32} :
    namesImportedModule line stop ↔ line.NamesModule stop := by
  unfold namesImportedModule NamesModule
  rw [Bool.and_eq_true, startsWithWord_iff, List.any_eq_true]
  refine and_congr_right fun _ => exists_congr fun clause => and_congr_right fun _ => ?_
  rw [Option.any_eq_true]
  constructor
  · rintro ⟨column, hcolumn, hstop⟩
    obtain ⟨n, hn, rfl⟩ := columnOf?_eq_some_iff.1 hcolumn
    rw [Bool.and_eq_true, decide_eq_true_eq, decide_eq_true_eq] at hstop
    exact ⟨n, hn, hstop⟩
  · rintro ⟨n, hn, hstop⟩
    refine ⟨_, columnOf?_eq_some_iff.2 ⟨n, hn, rfl⟩, ?_⟩
    rw [Bool.and_eq_true, decide_eq_true_eq, decide_eq_true_eq]
    exact hstop

theorem isTypeAlias_iff {line : Text} : isTypeAlias line ↔ line.DeclaresAlias := by
  unfold isTypeAlias DeclaresAlias
  rw [Option.any_eq_true]
  constructor
  · rintro ⟨rest, hrest, halias⟩
    obtain rfl := dropWord?_eq_some_iff.1 hrest
    rw [Bool.and_eq_true, startsWithWord_iff] at halias
    obtain ⟨blanks, hblanks, hall⟩ := exists_blanks_append_dropBlanks rest
    refine ⟨blanks, rest.dropBlanks, ?_, ?_, hall, halias.2⟩
    · rw [List.append_assoc, ← hblanks]
    · rintro rfl
      rw [List.nil_append] at hblanks
      obtain ⟨c, hc, hblank⟩ := (Option.any_eq_true _ _).1 halias.1
      rw [hblanks, dropBlanks] at hc
      have hnot := List.head?_dropWhile_not isBlank rest
      rw [hc] at hnot
      exact absurd (hnot.symm.trans hblank) (by decide)
  · rintro ⟨blanks, rest, rfl, hne, hall, halias⟩
    refine ⟨blanks ++ rest, dropWord?_eq_some_iff.2 (List.append_assoc _ _ _), ?_⟩
    obtain ⟨b, blanks, rfl⟩ := List.exists_cons_of_ne_nil hne
    have hrest : ∀ c ∈ rest.head?, ¬ isBlank c := by
      obtain ⟨tail, rfl, -⟩ := halias
      rintro c hc
      obtain rfl : 'a' = c := by simpa using hc
      decide
    rw [Bool.and_eq_true, dropBlanks_append hall hrest, startsWithWord_iff]
    exact ⟨hall b List.mem_cons_self, halias⟩

instance (line : Text) (stop : UInt32) : Decidable (line.NamesModule stop) :=
  decidable_of_iff _ namesImportedModule_iff

instance (line : Text) : Decidable line.DeclaresAlias :=
  decidable_of_iff _ isTypeAlias_iff

end Text

namespace LineToken

variable {ts left right : List LineToken} {t dot seg : LineToken}

/-! ## Runs of a qualified name -/

/-- **How many pairs of a dot and an upper-case identifier** a list of tokens
starts with. -/
def run : List LineToken → Nat
  | dot :: seg :: ts =>
    if dot.text = ['.'] ∧ seg.category = .upperIdentifier then run ts + 1 else 0
  | _ => 0

/-- The text of tokens in order. -/
def spelling (ts : List LineToken) : Text := ts.flatMap (·.text)

/-- **The module path before a token**, from the tokens to its left, nearest
first. -/
def pathBefore (left : List LineToken) : Text := spelling (left.take (2 * run left)).reverse

/-- **What ends a name** after its upper-case segments: a dot with the
lower-case identifier after it, or else a dot alone. -/
def ending : List LineToken → Text
  | [] => []
  | dot :: rest =>
    if dot.text = ['.'] then
      '.' :: (rest.head?.filter (·.category = .lowerIdentifier)).elim [] (·.text)
    else []

/-- **The rest of a name**, from the tokens to the right of its segment. -/
def pathAfter (right : List LineToken) : Text :=
  spelling (right.take (2 * run right)) ++ ending (right.drop (2 * run right))

theorem pathBefore_cons_cons (dot seg : LineToken) (left : List LineToken) :
    pathBefore (dot :: seg :: left)
      = if dot.text = ['.'] ∧ seg.category = .upperIdentifier then
          pathBefore left ++ seg.text ++ ['.']
        else [] := by
  rw [pathBefore, run]
  split_ifs with h
  · rw [Nat.mul_succ, List.take_succ_cons, List.take_succ_cons, List.reverse_cons,
      List.reverse_cons, spelling, List.flatMap_append, List.flatMap_append,
      List.flatMap_singleton, List.flatMap_singleton, h.1]
    rfl
  · rfl

theorem pathAfter_cons_cons (dot seg : LineToken) (right : List LineToken) :
    pathAfter (dot :: seg :: right)
      = if dot.text = ['.'] then
          if seg.category = .upperIdentifier then '.' :: seg.text ++ pathAfter right
          else if seg.category = .lowerIdentifier then '.' :: seg.text
          else ['.']
        else [] := by
  rw [pathAfter, run]
  by_cases hdot : dot.text = ['.']
  · rw [if_pos hdot]
    by_cases hseg : seg.category = .upperIdentifier
    · rw [if_pos ⟨hdot, hseg⟩, if_pos hseg, Nat.mul_succ, List.take_succ_cons,
        List.take_succ_cons, spelling, List.flatMap_cons, List.flatMap_cons, hdot]
      rw [pathAfter, spelling, List.append_assoc, List.append_assoc]
      rfl
    · rw [if_neg (fun h => hseg h.2), if_neg hseg]
      show ending (dot :: seg :: right) = _
      rw [ending, if_pos hdot]
      split_ifs with hlower
      · rw [List.head?_cons, Option.filter_some_pos (by simpa using hlower)]
        rfl
      · rw [List.head?_cons, Option.filter_some_neg (by simpa using hlower)]
        rfl
  · rw [if_neg hdot, if_neg (fun h => hdot h.1)]
    show ending (dot :: seg :: right) = _
    rw [ending, if_neg hdot]

/-! ## The token of a cursor -/

/-- **The index of the token a cursor is at**: the first one that stops at the
column or past it, or else the last one. At column 0 there is none. -/
def indexAt? (ts : List LineToken) (column : UInt32) : Option Nat :=
  if column = 0 ∨ ts = [] then Option.none
  else some ((ts.findIdx? (column ≤ ·.stop)).getD (ts.length - 1))

theorem getElem?_length : (left ++ t :: right)[left.length]? = some t := by
  rw [List.getElem?_append_right (Nat.le_refl _), Nat.sub_self]
  rfl

theorem lt_of_indexAt? {column : UInt32} {i : Nat} (h : indexAt? ts column = some i) :
    i < ts.length := by
  unfold indexAt? at h
  split_ifs at h with hnone
  obtain ⟨-, hne⟩ := not_or.1 hnone
  obtain rfl := Option.some.inj h
  cases hfind : ts.findIdx? (fun u : LineToken => column ≤ u.stop) with
  | none => exact Nat.sub_lt (List.length_pos_of_ne_nil hne) Nat.one_pos
  | some j => exact (List.findIdx?_eq_some_iff_getElem.1 hfind).1

end LineToken

namespace Document

open LineToken (pathBefore pathAfter pathBefore_cons_cons pathAfter_cons_cons indexAt?
  getElem?_length lt_of_indexAt?)

variable {d : Document} {boundary : ImportBoundary} {line : UInt32}
  {left right : List LineToken} {t u dot : LineToken}

/-! ## The hint of an index -/

/-- **The name at an index**: an identifier with the path around it. -/
def nameByIndex (d : Document) (boundary : ImportBoundary) (line : UInt32) (i : Nat) :
    Option Text :=
  let ts := d.lineTokens line
  ts[i]?.bind fun t =>
    match t.category with
    | .lowerIdentifier => some (pathBefore (ts.take i).reverse ++ t.text)
    | .upperIdentifier =>
      let name := pathBefore (ts.take i).reverse ++ t.text ++ pathAfter (ts.drop (i + 1))
      if line < boundary.endLine ∧ (d.lineText line).NamesModule t.stop then
        some (moduleTag ++ name)
      else some name
    | _ => none

/-- **The hint at an index**: a dot stands for the token after it, and the
other reserved words and operators for themselves, but for `type` before
`alias` and `as` among the imports. -/
def tokenHintByIndex (d : Document) (boundary : ImportBoundary) (line : UInt32) (i : Nat) :
    Option Text :=
  (d.lineTokens line)[i]?.bind fun t =>
    if t.category = .keyword then
      if t.text = ['.'] then d.nameByIndex boundary line (i + 1)
      else some (
        if t.text = "type".toList ∧ (d.lineText line).DeclaresAlias then "alias".toList
        else if t.text = "as".toList ∧ line < boundary.endLine then "import".toList
        else t.text)
    else d.nameByIndex boundary line i

/-- **The hint of a selection by index**; only a plain cursor has one. -/
def hintByIndex (d : Document) (boundary : ImportBoundary) (selection : Selection) :
    Option Text :=
  if selection.anchor = selection.head then
    (indexAt? (d.lineTokens selection.head.line) selection.head.column).bind
      (d.tokenHintByIndex boundary selection.head.line)
  else none

/-! ## The walk to the left -/

theorem before_view (hw : (d.lineText line).width < UInt32.size)
    (hts : d.lineTokens line = left ++ u :: t :: right) :
    d.source.before line t.view = u.view :=
  congrArg LineToken.view (tokenAt_start hw hts)

theorem before_view_first (hw : (d.lineText line).width < UInt32.size)
    (hts : d.lineTokens line = t :: right) : d.source.before line t.view = LineToken.none.view :=
  congrArg LineToken.view (tokenAt_start_first hw hts)

theorem qualifier?_view (hw : (d.lineText line).width < UInt32.size)
    (hts : d.lineTokens line = left ++ u :: dot :: t :: right) :
    d.source.qualifier? line t.view
      = if dot.text = ['.'] ∧ u.category = .upperIdentifier then some u.view else none := by
  have h := tiles_lineTokens hw
  rw [hts] at h
  have hu : u.start < dot.start :=
    h.stop_eq_start ▸ UInt32.lt_iff_toNat_lt.2 h.start_lt_stop
  have hts' := hts
  rw [List.append_cons] at h hts'
  have hdot : dot.start < t.start :=
    h.stop_eq_start ▸ UInt32.lt_iff_toNat_lt.2 h.start_lt_stop
  unfold TokenSource.qualifier?
  dsimp only
  rw [before_view hw hts', before_view hw hts]
  show (if dot.text = ['.'] ∧ dot.start < t.start then
      if u.category = .upperIdentifier ∧ u.start < dot.start then some u.view else none
    else none) = _
  simp only [hdot, hu, and_true, ite_and]

/-- One token is too few for a qualifier. -/
theorem qualifier?_view_second (hw : (d.lineText line).width < UInt32.size)
    (hts : d.lineTokens line = u :: t :: right) : d.source.qualifier? line t.view = none := by
  unfold TokenSource.qualifier?
  dsimp only
  have hts' : d.lineTokens line = [] ++ u :: t :: right := hts
  rw [before_view hw hts', before_view_first hw hts]
  split_ifs with hdot hq
  · exact absurd hq.1 (by decide)
  · rfl
  · rfl

theorem qualifier?_view_first (hw : (d.lineText line).width < UInt32.size)
    (hts : d.lineTokens line = t :: right) : d.source.qualifier? line t.view = none := by
  unfold TokenSource.qualifier?
  dsimp only
  rw [before_view_first hw hts]
  exact if_neg fun h => absurd h.1 (by decide)

theorem qualifiers_of_none {s : TokenSource} {t : TokenView} (h : s.qualifier? line t = none) :
    s.qualifiers line t = [] := by
  rw [TokenSource.qualifiers]
  split
  · rfl
  · rename_i q hq
    exact absurd (hq.symm.trans h) (Option.some_ne_none q)

theorem qualifiers_of_some {s : TokenSource} {t q : TokenView}
    (h : s.qualifier? line t = some q) :
    s.qualifiers line t = s.qualifiers line q ++ q.text ++ ['.'] := by
  rw [TokenSource.qualifiers]
  split
  · rename_i hq
    exact absurd (h.symm.trans hq) (Option.some_ne_none q)
  · rename_i r hr
    rw [Option.some.inj (h.symm.trans hr)]

/-- **The left walk collects the path before a token.** -/
theorem qualifiers_view (hw : (d.lineText line).width < UInt32.size) :
    ∀ {left right : List LineToken} {t : LineToken},
      d.lineTokens line = left.reverse ++ t :: right →
        d.source.qualifiers line t.view = pathBefore left
  | [], right, t, hts => qualifiers_of_none (qualifier?_view_first hw hts)
  | [u], right, t, hts => qualifiers_of_none (qualifier?_view_second hw hts)
  | dot :: q :: left, right, t, hts => by
    -- one step of the walk takes two tokens, whether or not it goes on
    have hts' : d.lineTokens line = left.reverse ++ q :: dot :: t :: right := by
      rw [hts, List.reverse_cons, List.reverse_cons, List.append_assoc, List.append_assoc]
      rfl
    have hstep := qualifier?_view hw hts'
    rw [pathBefore_cons_cons]
    split_ifs at hstep ⊢ with hq
    · rw [qualifiers_of_some hstep, qualifiers_view hw hts']
      rfl
    · exact qualifiers_of_none hstep

/-! ## The walk to the right -/

theorem after_view (hw : (d.lineText line).width < UInt32.size)
    (hts : d.lineTokens line = left ++ t :: u :: right) :
    d.source.after line t.view = u.view :=
  congrArg LineToken.view (tokenAt_next hw hts)

theorem after_view_last (hw : (d.lineText line).width < UInt32.size)
    (hts : d.lineTokens line = left ++ [t]) : d.source.after line t.view = t.view :=
  congrArg LineToken.view (tokenAt_next_last hw hts)

/-- The walk stops at the last token, which it meets again. -/
theorem segment_view_last (hw : (d.lineText line).width < UInt32.size)
    (hts : d.lineTokens line = left ++ [t]) : d.source.segment line t.view = ([], none) := by
  have h := tiles_lineTokens hw
  rw [hts] at h
  have ht : t.start < t.stop := UInt32.lt_iff_toNat_lt.2 h.start_lt_stop
  unfold TokenSource.segment
  dsimp only
  rw [after_view_last hw hts]
  exact if_pos (.inr ht)

/-- A dot that ends the line is all that the walk adds. -/
theorem segment_view_dot (hw : (d.lineText line).width < UInt32.size)
    (hts : d.lineTokens line = left ++ [t, dot]) :
    d.source.segment line t.view = (if dot.text = ['.'] then ['.'] else [], none) := by
  have hts' := hts
  rw [List.append_cons] at hts'
  have h := tiles_lineTokens hw
  rw [hts] at h
  have hmeet := h.stop_eq_start
  rw [List.append_cons] at h
  have hdot : dot.start < dot.stop := UInt32.lt_iff_toNat_lt.2 h.start_lt_stop
  unfold TokenSource.segment
  dsimp only
  rw [after_view hw hts, after_view_last hw hts']
  show (if dot.text ≠ ['.'] ∨ dot.start < t.stop then ([], none)
    else if dot.start < dot.stop then (['.'], none) else _) = _
  rw [hmeet, if_pos hdot]
  simp only [UInt32.lt_irrefl, or_false, ite_not]
  split_ifs <;> rfl

theorem segment_view (hw : (d.lineText line).width < UInt32.size)
    (hts : d.lineTokens line = left ++ t :: dot :: u :: right) :
    d.source.segment line t.view
      = if dot.text = ['.'] then
          if u.category = .upperIdentifier then ('.' :: u.text, some u.view)
          else if u.category = .lowerIdentifier then ('.' :: u.text, none)
          else (['.'], none)
        else ([], none) := by
  have hts' := hts
  rw [List.append_cons] at hts'
  have h := tiles_lineTokens hw
  rw [hts] at h
  have hmeet := h.stop_eq_start
  rw [List.append_cons] at h
  have hmeet' := h.stop_eq_start
  unfold TokenSource.segment
  dsimp only
  rw [after_view hw hts, after_view hw hts']
  show (if dot.text ≠ ['.'] ∨ dot.start < t.stop then ([], none)
    else if u.start < dot.stop then (['.'], none)
    else match u.category with
      | .lowerIdentifier => ('.' :: u.text, none)
      | .upperIdentifier => ('.' :: u.text, some u.view)
      | _ => (['.'], none)) = _
  rw [hmeet, hmeet']
  simp only [UInt32.lt_irrefl, or_false, if_false, ite_not]
  cases u.category <;> rfl

/-- **The right walk collects the rest of the name** in more steps than there
are tokens. -/
theorem segmentsWithin_view (hw : (d.lineText line).width < UInt32.size) {steps : Nat}
    (hts : d.lineTokens line = left ++ t :: right) (hsteps : right.length < steps) :
    d.source.segmentsWithin line steps t.view = some (pathAfter right) := by
  induction steps generalizing left t right with
  | zero => exact absurd hsteps (Nat.not_lt_zero _)
  | succ steps ih =>
    rw [TokenSource.segmentsWithin]
    match right, hts, hsteps with
    | [], hts, _ => rw [segment_view_last hw hts]; rfl
    | [dot], hts, _ => rw [segment_view_dot hw hts]; rfl
    | dot :: u :: right, hts, hsteps =>
      rw [segment_view hw hts, pathAfter_cons_cons]
      -- only an upper-case segment goes on, from two tokens further
      have hts' : d.lineTokens line = left ++ [t, dot] ++ u :: right := by
        rw [hts, List.append_assoc]; rfl
      split_ifs with hdot hupper hlower
      · dsimp only
        rw [ih hts' (Nat.lt_of_succ_lt (Nat.lt_of_succ_lt_succ hsteps)), Option.map_some]
      · rfl
      · rfl
      · rfl

/-! ## The hint of a token -/

/-- The walk to the right always ends. -/
theorem segments?_view (hw : (d.lineText line).width < UInt32.size)
    (hts : d.lineTokens line = left ++ t :: right) :
    d.source.segments? line t.view = some (pathAfter right) := by
  refine segmentsWithin_view hw hts ?_
  have hlength := (tiles_lineTokens hw).length_le_width
  rw [hts, List.length_append, List.length_cons] at hlength
  omega

/-- The line lies among the imports and the token names the module. -/
theorem tagged_iff {stop : UInt32} :
    (boundary.contains line && namesImportedModule (d.lineText line) stop)
      ↔ line < boundary.endLine ∧ (d.lineText line).NamesModule stop := by
  rw [Bool.and_eq_true, Text.namesImportedModule_iff, ImportBoundary.contains, decide_eq_true_eq]

theorem upperHint?_view (hw : (d.lineText line).width < UInt32.size)
    (hts : d.lineTokens line = left.reverse ++ t :: right) :
    d.source.upperHint? boundary line t.view
      = some (if line < boundary.endLine ∧ (d.lineText line).NamesModule t.stop then
          moduleTag ++ (pathBefore left ++ t.text ++ pathAfter right)
        else pathBefore left ++ t.text ++ pathAfter right) := by
  rw [TokenSource.upperHint?, segments?_view hw hts, Option.map_some, qualifiers_view hw hts]
  refine congrArg some ?_
  dsimp only
  exact if_congr tagged_iff rfl rfl

/-- **The resolver's name for a token is that of its index.** -/
theorem nameHint?_view (hw : (d.lineText line).width < UInt32.size)
    (hts : d.lineTokens line = left ++ t :: right) :
    d.source.nameHint? boundary line t.view
      = some (d.nameByIndex boundary line left.length) := by
  have hleft : d.lineTokens line = left.reverse.reverse ++ t :: right := by
    rw [List.reverse_reverse, hts]
  have hdrop : (left ++ t :: right).drop (left.length + 1) = right := by
    rw [List.append_cons, List.drop_left' (by simp)]
  have hcategory : t.view.category = t.category := rfl
  unfold TokenSource.nameHint? nameByIndex
  dsimp only
  rw [hts, getElem?_length, Option.bind_some, List.take_left, hdrop, hcategory]
  cases t.category with
  | lowerIdentifier =>
    dsimp only
    rw [TokenSource.lowerHint, qualifiers_view hw hleft]
    rfl
  | upperIdentifier =>
    dsimp only
    rw [upperHint?_view hw hleft]
    split_ifs <;> rfl
  | _ => rfl

theorem wordHint_source (word : Text) :
    d.source.wordHint boundary line word
      = if word = "type".toList ∧ (d.lineText line).DeclaresAlias then "alias".toList
        else if word = "as".toList ∧ line < boundary.endLine then "import".toList
        else word := by
  unfold TokenSource.wordHint
  refine if_congr (and_congr_right fun _ => Text.isTypeAlias_iff) rfl ?_
  refine if_congr (and_congr_right fun _ => ?_) rfl rfl
  rw [ImportBoundary.contains, decide_eq_true_eq]

/-- **The resolver's hint for a token is that of its index.** -/
theorem tokenHint?_view (hw : (d.lineText line).width < UInt32.size)
    (hts : d.lineTokens line = left ++ t :: right) :
    d.source.tokenHint? boundary line t.view
      = some (d.tokenHintByIndex boundary line left.length) := by
  unfold TokenSource.tokenHint? tokenHintByIndex
  rw [nameHint?_view hw hts, hts, getElem?_length, Option.bind_some]
  show (if t.category = .keyword then
      if t.text = ['.'] then d.source.nameHint? boundary line (d.source.after line t.view)
      else some (some (d.source.wordHint boundary line t.text))
    else _) = _
  by_cases hkeyword : t.category = .keyword
  · rw [if_pos hkeyword, if_pos hkeyword]
    by_cases hdot : t.text = ['.']
    · rw [if_pos hdot, if_pos hdot]
      match right, hts with
      | [], hts =>
        -- a dot at the end of the line meets itself, and is no identifier
        have hcategory : t.view.category = .keyword := hkeyword
        have hend : (left ++ [t])[left.length + 1]? = none :=
          List.getElem?_eq_none (by rw [List.length_append]; rfl)
        rw [after_view_last hw hts, TokenSource.nameHint?, hcategory, nameByIndex, hts, hend]
        rfl
      | u :: right, hts =>
        have hts' : d.lineTokens line = left ++ [t] ++ u :: right := by
          rw [hts, List.append_cons]
        rw [after_view hw hts, nameHint?_view hw hts', List.length_append]
        rfl
    · rw [if_neg hdot, if_neg hdot, wordHint_source]
  · rw [if_neg hkeyword, if_neg hkeyword]

/-! ## The hint of a cursor -/

theorem tokenAt_eq_indexAt? (d : Document) (p : Position) :
    d.tokenAt p
      = ((indexAt? (d.lineTokens p.line) p.column).bind ((d.lineTokens p.line)[·]?)).getD
          LineToken.none := by
  unfold tokenAt indexAt?
  dsimp only
  by_cases hcolumn : p.column = 0
  · rw [if_pos hcolumn, if_pos (.inl hcolumn)]
    rfl
  · rw [if_neg hcolumn]
    by_cases hnil : d.lineTokens p.line = []
    · rw [if_pos (.inr hnil), hnil]
      rfl
    · rw [if_neg (not_or.2 ⟨hcolumn, hnil⟩), List.find?_eq_bind_findIdx?_getElem?,
        Option.bind_some, List.getLastD_eq_getLast?, List.getLast?_eq_getElem?]
      cases hfind : (d.lineTokens p.line).findIdx? (p.column ≤ ·.stop) with
      | none => rfl
      | some i =>
        have hi := (List.findIdx?_eq_some_iff_getElem.1 hfind).1
        rw [Option.bind_some, Option.getD_some, List.getElem?_eq_getElem hi]
        rfl

/-- **The resolver gives the hint that is read off the tokens.** For every
document, boundary and cursor on a line whose columns are words, the walks
by columns end, and with the hint that the list of tokens of the line
determines by index. -/
theorem resolve?_eq_hintByIndex (d : Document) (boundary : ImportBoundary)
    (selection : Selection)
    (hw : (d.lineText selection.head.line).width < UInt32.size) :
    d.source.resolve? boundary selection = some (d.hintByIndex boundary selection) := by
  unfold TokenSource.resolve? hintByIndex
  by_cases hcursor : selection.anchor = selection.head
  · have hempty : selection.isEmpty := decide_eq_true hcursor
    rw [if_pos hempty, if_pos hcursor]
    show d.source.tokenHint? boundary _ (d.tokenAt selection.head).view = _
    rw [tokenAt_eq_indexAt?]
    cases hindex : indexAt? (d.lineTokens selection.head.line) selection.head.column with
    | none => rfl
    | some i =>
      have hi := lt_of_indexAt? hindex
      have hts := List.take_append_drop i (d.lineTokens selection.head.line)
      rw [List.drop_eq_getElem_cons hi] at hts
      have hlength := List.length_take_of_le hi.le
      rw [Option.bind_some, Option.bind_some, List.getElem?_eq_getElem hi, Option.getD_some,
        tokenHint?_view hw hts.symm, hlength]
  · have hempty : ¬ selection.isEmpty := fun h => hcursor (of_decide_eq_true h)
    rw [if_neg hempty, if_neg hcursor]

/-- At `Html`, among the imports, the whole module path is tagged. -/
theorem resolve?_eq_hintByIndex_import :
    (ofText "import Html.Events as E".toList).source.resolve? (.upTo 1) ⟨⟨0, 9⟩, ⟨0, 9⟩⟩
      = some (some "module:Html.Events".toList) := by
  rw [resolve?_eq_hintByIndex _ _ _ (by decide +kernel)]
  decide +kernel

end Document

end EditorCore
