import EditorCore.Hint.Source
import EditorCore.Hint.Resolve
import EditorCore.Proofs.Document.Tiling

/-!
# Probing a tiled line

A walk along a line asks for tokens by column only, at the column where a
token starts and at the one past its end. On a line that is tiled these
probes hit the neighbours of the token, the one before it
(`Document.tokenAt_start`) and the one after it (`Document.tokenAt_next`).
At the ends of the line there is no neighbour: before the first token a
probe reads nothing, and past the last one it answers that token again.
What a line answers at every one of its columns is said together
(`Document.tokenAt_columns`).
-/

namespace EditorCore

namespace LineToken.Tiles

variable {line : Text} {ts left right : List LineToken} {t u : LineToken}

/-! ## The order of tokens -/

/-- A token stops no later than the ones after it start. -/
theorem pairwise (h : Tiles line ts) : ts.Pairwise fun t u => t.stop.toNat ≤ u.start.toNat := by
  have hpos := fun t ht => (h.nonempty t ht).2
  have hchain := h.adjacent
  clear h
  induction ts with
  | nil => exact .nil
  | cons t ts ih =>
    obtain ⟨ht, hts⟩ := List.forall_mem_cons.1 hpos
    have htail := ih hts hchain.tail
    refine List.pairwise_cons.2 ⟨fun u hu => ?_, htail⟩
    cases ts with
    | nil => exact absurd hu List.not_mem_nil
    | cons v ts =>
      have hv : t.stop = v.start := hchain.rel_head? rfl
      rcases List.mem_cons.1 hu with rfl | hu
      · exact (congrArg UInt32.toNat hv).le
      · have hlt := UInt32.lt_iff_toNat_lt.1 (hts v List.mem_cons_self)
        have hle := (List.pairwise_cons.1 htail).1 u hu
        rw [hv]
        omega

/-- Before a token, others stop no later than it starts. -/
theorem stop_le_start (h : Tiles line (left ++ t :: right)) (hu : u ∈ left) :
    u.stop.toNat ≤ t.start.toNat :=
  (List.pairwise_append.1 h.pairwise).2.2 u hu t List.mem_cons_self

/-- A token starts before it stops. -/
theorem start_lt_stop (h : Tiles line (left ++ t :: right)) : t.start.toNat < t.stop.toNat :=
  UInt32.lt_iff_toNat_lt.1 (h.nonempty t (List.mem_append_right left List.mem_cons_self)).2

/-- Neighbours meet in a column. -/
theorem stop_eq_start (h : Tiles line (left ++ t :: u :: right)) : t.stop = u.start :=
  (h.adjacent.right_of_append).rel_head? rfl

/-- The first token starts the line. -/
theorem start_eq_zero (h : Tiles line (t :: right)) : t.start = 0 := h.starts t rfl

/-- There are no more tokens than columns. -/
theorem length_le_width (h : Tiles line ts) : ts.length ≤ line.width := by
  rw [← h.spells]
  have hne := fun t ht => (h.nonempty t ht).1
  clear h
  induction ts with
  | nil => exact Nat.zero_le _
  | cons t ts ih =>
    obtain ⟨ht, hts⟩ := List.forall_mem_cons.1 hne
    have hpos := Text.width_pos ht
    have hle := ih hts
    rw [List.flatMap_cons, Text.width_append, List.length_cons]
    omega

/-! ## Looking up a column -/

/-- The tokens before one do not reach a column past its start. -/
theorem find?_left {column : UInt32} (h : Tiles line (left ++ t :: right))
    (hstart : t.start < column) :
    left.find? (fun u : LineToken => column ≤ u.stop) = Option.none := by
  rw [UInt32.lt_iff_toNat_lt] at hstart
  rw [List.find?_eq_none]
  intro u hu
  have hle := h.stop_le_start hu
  rw [decide_eq_true_eq, UInt32.le_iff_toNat_le]
  exact Nat.not_le.2 (Nat.lt_of_le_of_lt hle hstart)

/-- **The token a column reaches** is the one that the tokens before it stop
short of. -/
theorem find?_eq_some {column : UInt32} (h : Tiles line (left ++ t :: right))
    (hstart : t.start < column) (hstop : column ≤ t.stop) :
    (left ++ t :: right).find? (column ≤ ·.stop) = some t := by
  rw [List.find?_append, h.find?_left hstart, Option.none_or]
  exact List.find?_cons_of_pos (decide_eq_true hstop)

/-- Every column of the line but column 0 is reached by a token. -/
theorem exists_within {column : UInt32} (h : Tiles line ts) (hpos : 0 < column)
    (hle : column.toNat ≤ line.width) :
    ∃ left t right, ts = left ++ t :: right ∧ t.start < column ∧ column ≤ t.stop := by
  obtain ⟨t, ht⟩ : ∃ t, ts.find? (column ≤ ·.stop) = some t := by
    rw [← Option.isSome_iff_exists, List.find?_isSome]
    rcases List.eq_nil_or_concat' ts with rfl | ⟨front, last, rfl⟩
    · -- without a token the line would be empty, and have column 0 only
      obtain rfl : [] = line := h.spells
      exact absurd (UInt32.lt_iff_toNat_lt.1 hpos) (Nat.not_lt.2 hle)
    · have hlast := h.stops last (List.getLast?_concat ..)
      refine ⟨last, List.mem_append_right front List.mem_cons_self, decide_eq_true ?_⟩
      rwa [UInt32.le_iff_toNat_le, hlast]
  obtain ⟨hstop, left, right, rfl, hleft⟩ := List.find?_eq_some_iff_append.1 ht
  refine ⟨left, t, right, rfl, ?_, of_decide_eq_true hstop⟩
  rcases List.eq_nil_or_concat' left with rfl | ⟨left, u, rfl⟩
  · rwa [h.start_eq_zero]
  · -- the token starts where the one before it stops, short of the column
    rw [List.append_assoc] at h
    have hu := hleft u (List.mem_append_right left List.mem_cons_self)
    rw [Bool.not_eq_true', decide_eq_false_iff_not, UInt32.not_le] at hu
    rwa [← h.stop_eq_start]

/-- No column is reached by two tokens. -/
theorem index_unique {column : UInt32} {i j : Nat} (h : Tiles line ts) (hi : i < ts.length)
    (hj : j < ts.length) (hcolumn : ts[i].start < column ∧ column ≤ ts[i].stop)
    (hcolumn' : ts[j].start < column ∧ column ≤ ts[j].stop) : i = j := by
  have hpairwise := List.pairwise_iff_getElem.1 h.pairwise
  simp only [UInt32.lt_iff_toNat_lt, UInt32.le_iff_toNat_le] at hcolumn hcolumn'
  rcases Nat.lt_trichotomy i j with hlt | rfl | hlt
  · have := hpairwise i j hi hj hlt
    omega
  · rfl
  · have := hpairwise j i hj hi hlt
    omega

end LineToken.Tiles

namespace Document

variable {d : Document} {line : UInt32} {left right : List LineToken} {t u : LineToken}

/-- **A column within a token finds it**, and so does the column where it stops. -/
theorem tokenAt_within {column : UInt32} (hw : (d.lineText line).width < UInt32.size)
    (hts : d.lineTokens line = left ++ t :: right) (hstart : t.start < column)
    (hstop : column ≤ t.stop) : d.tokenAt ⟨line, column⟩ = t := by
  have h := tiles_lineTokens hw
  rw [hts] at h
  have hne : column ≠ 0 := UInt32.pos_iff_ne_zero.1 (UInt32.lt_of_le_of_lt UInt32.zero_le hstart)
  rw [tokenAt, if_neg hne]
  dsimp only
  rw [hts, h.find?_eq_some hstart hstop, Option.getD_some]

/-- **The last token is found past its end as well.** -/
theorem tokenAt_last {column : UInt32} (hw : (d.lineText line).width < UInt32.size)
    (hts : d.lineTokens line = left ++ [t]) (hstart : t.start < column) :
    d.tokenAt ⟨line, column⟩ = t := by
  have h := tiles_lineTokens hw
  rw [hts] at h
  have hne : column ≠ 0 := UInt32.pos_iff_ne_zero.1 (UInt32.lt_of_le_of_lt UInt32.zero_le hstart)
  rw [tokenAt, if_neg hne]
  dsimp only
  rw [hts, List.find?_append, h.find?_left hstart, Option.none_or, List.find?_singleton,
    List.getLastD_concat]
  split_ifs <;> rfl

/-- **The token before a token** is found at the column where it starts. -/
theorem tokenAt_start (hw : (d.lineText line).width < UInt32.size)
    (hts : d.lineTokens line = left ++ u :: t :: right) : d.tokenAt ⟨line, t.start⟩ = u := by
  have h := tiles_lineTokens hw
  rw [hts] at h
  have hstart := h.start_lt_stop
  rw [← h.stop_eq_start]
  exact tokenAt_within hw hts (UInt32.lt_iff_toNat_lt.2 hstart) (UInt32.le_refl _)

/-- Before the first token there is none. -/
theorem tokenAt_start_first (hw : (d.lineText line).width < UInt32.size)
    (hts : d.lineTokens line = t :: right) : d.tokenAt ⟨line, t.start⟩ = LineToken.none := by
  have h := tiles_lineTokens hw
  rw [hts] at h
  exact if_pos h.start_eq_zero

/-- The column that is probed for the token after one. -/
def nextColumn (stop : UInt32) : UInt32 :=
  if stop = .ofNat (UInt32.size - 1) then stop else stop + 1

theorem toNat_nextColumn {stop bound : UInt32} (h : stop.toNat < bound.toNat) :
    (nextColumn stop).toNat = stop.toNat + 1 := by
  have hbound := bound.toNat_lt
  have hne : stop ≠ .ofNat (UInt32.size - 1) := by
    rintro rfl
    exact absurd h (Nat.not_lt.2 (Nat.le_of_lt_succ hbound))
  rw [nextColumn, if_neg hne, UInt32.toNat_add]
  exact Nat.mod_eq_of_lt (Nat.lt_of_le_of_lt h hbound)

theorem le_nextColumn (stop : UInt32) : stop ≤ nextColumn stop := by
  unfold nextColumn
  split_ifs with hmax
  · exact UInt32.le_refl stop
  · have hlt : stop.toNat < (UInt32.ofNat (UInt32.size - 1)).toNat := by
      have hbound := stop.toNat_lt
      refine Nat.lt_of_le_of_ne (Nat.le_of_lt_succ hbound) fun h => hmax ?_
      exact UInt32.toNat_inj.1 h
    rw [UInt32.le_iff_toNat_le]
    have hnext := toNat_nextColumn hlt
    rw [nextColumn, if_neg hmax] at hnext
    rw [hnext]
    exact Nat.le_succ _

/-- **The token after a token** is found one column past its end. -/
theorem tokenAt_next (hw : (d.lineText line).width < UInt32.size)
    (hts : d.lineTokens line = left ++ t :: u :: right) :
    d.tokenAt ⟨line, nextColumn t.stop⟩ = u := by
  have h := tiles_lineTokens hw
  rw [hts] at h
  have hmeet := congrArg UInt32.toNat h.stop_eq_start
  rw [List.append_cons] at h hts
  have hlt := h.start_lt_stop
  have hnext : (nextColumn t.stop).toNat = t.stop.toNat + 1 :=
    toNat_nextColumn (hmeet ▸ hlt)
  refine tokenAt_within hw hts ?_ ?_
  · rw [UInt32.lt_iff_toNat_lt, hnext, hmeet]
    exact Nat.lt_succ_self _
  · rw [UInt32.le_iff_toNat_le, hnext, hmeet]
    exact hlt

/-- Past the last token that token is found again. -/
theorem tokenAt_next_last (hw : (d.lineText line).width < UInt32.size)
    (hts : d.lineTokens line = left ++ [t]) : d.tokenAt ⟨line, nextColumn t.stop⟩ = t := by
  have h := tiles_lineTokens hw
  rw [hts] at h
  have hlt := UInt32.lt_iff_toNat_lt.2 h.start_lt_stop
  -- the last token answers whether or not the probe is past it
  exact tokenAt_last hw hts (UInt32.lt_of_lt_of_le hlt (le_nextColumn t.stop))

/-! ## The token at every column -/

/-- The token before one, by its index; before the first token there is none. -/
theorem tokenAt_getElem_start (hw : (d.lineText line).width < UInt32.size) {i : Nat}
    (hi : i < (d.lineTokens line).length) :
    d.tokenAt ⟨line, (d.lineTokens line)[i].start⟩
      = (LineToken.none :: d.lineTokens line)[i]?.getD LineToken.none := by
  cases i with
  | zero =>
    obtain ⟨t, right, hts⟩ := List.exists_cons_of_length_pos hi
    have hstart := tokenAt_start_first hw hts
    simp only [hts]
    exact hstart
  | succ i =>
    have hsplit := List.take_append_drop i (d.lineTokens line)
    rw [List.drop_eq_getElem_cons (Nat.lt_of_succ_lt hi), List.drop_eq_getElem_cons hi] at hsplit
    rw [List.getElem?_cons_succ, List.getElem?_eq_getElem (Nat.lt_of_succ_lt hi)]
    exact tokenAt_start hw hsplit.symm

/-- The token after one, by its index; after the last token it is that one again. -/
theorem tokenAt_getElem_next (hw : (d.lineText line).width < UInt32.size) {i : Nat}
    (hi : i < (d.lineTokens line).length) :
    d.tokenAt ⟨line, nextColumn (d.lineTokens line)[i].stop⟩
      = (d.lineTokens line)[i + 1]?.getD (d.lineTokens line)[i] := by
  have hsplit := List.take_append_drop i (d.lineTokens line)
  rw [List.drop_eq_getElem_cons hi] at hsplit
  rcases Nat.lt_or_ge (i + 1) (d.lineTokens line).length with hnext | hend
  · rw [List.drop_eq_getElem_cons hnext] at hsplit
    rw [List.getElem?_eq_getElem hnext]
    exact tokenAt_next hw hsplit.symm
  · rw [List.drop_eq_nil_of_le hend] at hsplit
    rw [List.getElem?_eq_none hend]
    exact tokenAt_next_last hw hsplit.symm

/-- **The token at every column of a line.** At column 0 there is none. Up to the end
of the line it is the one token that starts before the column and does not stop
before it, and past the end it is the last token. So the column where a token starts
finds the token before it, and the one past its end the token after it, however wide
that is; the last token finds itself there. -/
theorem tokenAt_columns (d : Document) (line : UInt32)
    (hw : (d.lineText line).width < UInt32.size) :
    d.tokenAt ⟨line, 0⟩ = LineToken.none
    ∧ (∀ column, 0 < column → column ≤ d.lineLength line →
        ∃ i, ∃ h : i < (d.lineTokens line).length,
          d.tokenAt ⟨line, column⟩ = (d.lineTokens line)[i]
          ∧ ∀ j, ∀ h : j < (d.lineTokens line).length,
            (d.lineTokens line)[j].start < column ∧ column ≤ (d.lineTokens line)[j].stop
              ↔ j = i)
    ∧ (∀ column, d.lineLength line < column →
        d.tokenAt ⟨line, column⟩ = (d.lineTokens line).getLastD LineToken.none)
    ∧ ∀ i, ∀ h : i < (d.lineTokens line).length,
        d.tokenAt ⟨line, (d.lineTokens line)[i].start⟩
          = (LineToken.none :: d.lineTokens line)[i]?.getD LineToken.none
        ∧ d.tokenAt ⟨line, nextColumn (d.lineTokens line)[i].stop⟩
          = (d.lineTokens line)[i + 1]?.getD (d.lineTokens line)[i]
        ∧ d.source.before line (d.lineTokens line)[i].view
          = ((LineToken.none :: d.lineTokens line)[i]?.getD LineToken.none).view
        ∧ d.source.after line (d.lineTokens line)[i].view
          = ((d.lineTokens line)[i + 1]?.getD (d.lineTokens line)[i]).view := by
  have htiles := tiles_lineTokens hw
  have hlength : (d.lineLength line).toNat = (d.lineText line).width :=
    UInt32.toNat_ofNat_of_lt' hw
  refine ⟨if_pos rfl, fun column hpos hle => ?_, fun column hlt => ?_, fun i hi => ?_⟩
  · rw [UInt32.le_iff_toNat_le, hlength] at hle
    obtain ⟨left, t, right, hts, hstart, hstop⟩ := htiles.exists_within hpos hle
    have hi : left.length < (d.lineTokens line).length := by simp [hts]
    have ht : (d.lineTokens line)[left.length] = t := by simp [hts]
    refine ⟨left.length, hi, ht ▸ tokenAt_within hw hts hstart hstop, fun j hj => ?_⟩
    refine ⟨fun hcolumn => htiles.index_unique hj hi hcolumn (ht.symm ▸ ⟨hstart, hstop⟩), ?_⟩
    rintro rfl
    exact ht.symm ▸ ⟨hstart, hstop⟩
  · rcases List.eq_nil_or_concat' (d.lineTokens line) with hts | ⟨left, t, hts⟩
    · rw [tokenAt, hts]
      split_ifs <;> rfl
    · have hstop := htiles.stops t (hts ▸ List.getLast?_concat ..)
      rw [hts] at htiles
      have hstart := htiles.start_lt_stop
      rw [hts, List.getLastD_concat]
      refine tokenAt_last hw hts (UInt32.lt_iff_toNat_lt.2 ?_)
      rw [UInt32.lt_iff_toNat_lt, hlength] at hlt
      omega
  · have hstart := tokenAt_getElem_start hw hi
    have hnext := tokenAt_getElem_next hw hi
    exact ⟨hstart, hnext, congrArg LineToken.view hstart, congrArg LineToken.view hnext⟩

/-- One column past the end of the name lies within the character of two units after
it, and finds that character. -/
theorem tokenAt_columns_surrogate :
    let d := ofText ['a', '😀', 'b']
    (d.lineText 0).width < UInt32.size
    ∧ d.tokenAt ⟨0, 2⟩ = ⟨.error, ['😀'], 1, 3⟩
    ∧ d.tokenAt ⟨0, 3⟩ = ⟨.error, ['😀'], 1, 3⟩
    ∧ d.tokenAt ⟨0, 9⟩ = ⟨.lowerIdent, ['b'], 3, 4⟩ := by
  have hw : ((ofText ['a', '😀', 'b']).lineText 0).width < UInt32.size := by decide
  have htokens : (ofText ['a', '😀', 'b']).lineTokens 0
      = [⟨.lowerIdent, ['a'], 0, 1⟩, ⟨.error, ['😀'], 1, 3⟩, ⟨.lowerIdent, ['b'], 3, 4⟩] := by
    decide +kernel
  obtain ⟨-, -, hpast, hprobe⟩ := tokenAt_columns (ofText ['a', '😀', 'b']) 0 hw
  simp only [htokens] at hpast hprobe
  exact ⟨hw, (hprobe 0 (by decide)).2.1, (hprobe 2 (by decide)).1, hpast 9 (by decide)⟩

end Document

end EditorCore
