import EditorCore.Proofs.Edit.Command

/-!
# Backspace takes back what an opening key inserted

Inserting pairs and removing them are planned separately, and each counts on
its own by how much the columns of a line move. They cancel: the cursors that
insertion plans lie each inside a pair of the new line, and from there removal
plans the old cursors and leaves the old line.

The two counts are the same log, so that the columns cancel is arithmetic of
words (`removalCursors_insideCursors`). That the texts do takes the lines
apart. At a cursor that is still to come, the new line is what has been
**passed** of it, the old characters with the pairs before the cursor, and
then what the remaining insertions make of the rest of the old line
(`Text.Passed`). Going past one more cursor keeps that, and shows the pair it
lies in (`Text.Passed.step`); once all are passed, taking the pairs out again
leaves the old line (`Text.Passed.edited_removePair`).
-/

namespace EditorCore

open TextEdit

/-! ## The cursors inside the pairs -/

/-- The positions inside pairs inserted at `ps`, where both characters of a
pair are one column wide. -/
def insideCursors (log : ShiftLog) : List Position → List Position
  | [] => []
  | p :: ps =>
    ⟨p.line, p.column + log.on p.line + 1⟩ :: insideCursors ((p.line, 2) :: log) ps

variable {t u : Text} {log : ShiftLog} {ps : List Position} {p q : Position}
  {opening closing : Char}

theorem pairCursors_eq_map (hopening : units opening = 1) (hclosing : units closing = 1)
    (log : ShiftLog) (ps : List Position) :
    pairCursors opening closing log ps = (insideCursors log ps).map .cursor := by
  have hopen : columnWidth opening = 1 := by rw [columnWidth, hopening]; rfl
  have hclose : columnWidth closing = 1 := by rw [columnWidth, hclosing]; rfl
  induction ps generalizing log with
  | nil => rfl
  | cons p ps ih =>
    rw [pairCursors, insideCursors, hopen, hclose, ih]
    rfl

/-- **Removal moves the cursors back** to where the pairs were inserted. -/
theorem removalCursors_insideCursors (log : ShiftLog) (ps : List Position) :
    removalCursors log (insideCursors log ps) = ps.map .cursor := by
  induction ps generalizing log with
  | nil => rfl
  | cons p ps ih =>
    rw [insideCursors, removalCursors, ih, UInt32.add_sub_cancel, UInt32.add_sub_cancel]
    rfl

/-- **Positions have room to move** by what is logged of their line and still
planned on it. -/
def HasRoom (log : ShiftLog) (es : List TextEdit) (ps : List Position) : Prop :=
  ∀ p ∈ ps, p.column.toNat + (log.total p.line + inserted p.line.toNat es) < UInt32.size

/-- The insertion of a pair. -/
def insertPair (opening closing : Char) (p : Position) : TextEdit := insert p [opening, closing]

section Room

variable (hopening : units opening = 1) (hclosing : units closing = 1)

include hopening hclosing

theorem width_insertPair (p : Position) :
    (insertPair opening closing p).newText.width = (2 : UInt32).toNat := by
  show units opening + (units closing + 0) = 2
  rw [hopening, hclosing]

theorem HasRoom.tail (h : HasRoom log ((p :: ps).map (insertPair opening closing)) (p :: ps)) :
    HasRoom ((p.line, 2) :: log) (ps.map (insertPair opening closing)) ps := by
  intro q hq
  have hroom := h q (List.mem_cons_of_mem p hq)
  have hsum := ShiftLog.total_cons_add_sumOn (fun e => e.newText.width)
    (width_insertPair hopening hclosing p) log (ps.map (insertPair opening closing)) q.line
  rw [List.map_cons] at hroom
  unfold inserted at hroom ⊢
  rwa [← hsum] at hroom

/-- A cursor with room to move is moved by what is logged, and past the opening
character. -/
theorem HasRoom.toNat_column
    (h : HasRoom log ((p :: ps).map (insertPair opening closing)) (p :: ps)) :
    (p.column + log.on p.line + 1).toNat = p.column.toNat + log.total p.line + 1 := by
  have hroom := h p List.mem_cons_self
  have hsum : inserted p.line.toNat ((p :: ps).map (insertPair opening closing))
      = 2 + inserted p.line.toNat (ps.map (insertPair opening closing)) := by
    have hself := sumOn_cons_self (fun e => e.newText.width) (insertPair opening closing p)
      (ps.map (insertPair opening closing))
    rwa [width_insertPair hopening hclosing] at hself
  rw [hsum] at hroom
  change _ < 2 ^ 32 at hroom
  have hone : (1 : UInt32).toNat = 1 := rfl
  have htotal : (log.on p.line).toNat = log.total p.line := by
    rw [ShiftLog.toNat_on, Nat.mod_eq_of_lt (by omega)]
  rw [UInt32.toNat_add, UInt32.toNat_add, htotal, hone, Nat.mod_add_mod,
    Nat.mod_eq_of_lt (by omega)]

/-- Each cursor is moved at least by what is logged. -/
theorem HasRoom.le_column (h : HasRoom log (ps.map (insertPair opening closing)) ps) :
    ∀ q ∈ insideCursors log ps, ∃ p ∈ ps,
      q.line = p.line ∧ p.column.toNat + log.total p.line + 1 ≤ q.column.toNat := by
  induction ps generalizing log with
  | nil => exact nofun
  | cons p ps ih =>
    refine List.forall_mem_cons.2 ⟨⟨p, List.mem_cons_self, rfl,
      (h.toNat_column hopening hclosing).ge⟩, fun q hq => ?_⟩
    obtain ⟨r, hr, hline, hle⟩ := ih (h.tail hopening hclosing) q hq
    refine ⟨r, List.mem_cons_of_mem p hr, hline, ?_⟩
    rw [ShiftLog.total] at hle
    omega

/-- **The cursors stay in order**, with a character between two of them on each
side. -/
theorem pairwise_insideCursors (h : HasRoom log (ps.map (insertPair opening closing)) ps)
    (hps : ps.Pairwise fun p q => p.rank < q.rank) :
    (insideCursors log ps).Pairwise fun p q =>
      p.line < q.line ∨ p.line = q.line ∧ p.column.toNat + 2 < q.column.toNat := by
  induction ps generalizing log with
  | nil => exact .nil
  | cons p ps ih =>
    obtain ⟨hp, hps⟩ := List.pairwise_cons.1 hps
    have htail := h.tail hopening hclosing
    refine List.pairwise_cons.2 ⟨fun q hq => ?_, ih htail hps⟩
    obtain ⟨r, hr, hline, hle⟩ := htail.le_column hopening hclosing q hq
    have hlt := hp r hr
    rw [← Position.lt_iff_rank_lt] at hlt
    dsimp only
    rw [hline, h.toNat_column hopening hclosing]
    rcases hlt with hlt | ⟨heq, hlt⟩
    · exact .inl hlt
    · rw [UInt32.lt_iff_toNat_lt] at hlt
      rw [ShiftLog.total, if_pos heq] at hle
      rw [heq]
      change _ + (2 + _) + 1 ≤ _ at hle
      exact .inr ⟨rfl, by omega⟩

end Room

/-! ## Lines with pairs in them -/

namespace Text

variable {line : UInt32}

/-- **A pair lies around a position** of a text, after a first part of the
line. -/
def HasPair (u : Text) (opening closing : Char) (q : Position) : Prop :=
  ∃ pre post, u.line q.line.toNat = pre ++ [opening, closing] ++ post
    ∧ q.column.toNat = pre.width + 1

/-- The columns around a position in a pair, where those of its line are
words. -/
theorem toNat_column_pair {i : Nat} {column : UInt32} {pre post : Text}
    (hline : u.line i = pre ++ [opening, closing] ++ post)
    (hcolumn : column.toNat = pre.width + 1) (hopening : units opening = 1)
    (hclosing : units closing = 1) (hwords : (u.line i).width < UInt32.size) :
    (column - 1).toNat = pre.width
      ∧ (column + 1).toNat = Text.width (pre ++ [opening, closing]) := by
  have hpair : Text.width (pre ++ [opening, closing]) = pre.width + 2 := by
    rw [width_append, width_cons, width_cons, hopening, hclosing]
    rfl
  have hone : (1 : UInt32).toNat = 1 := rfl
  rw [hline, width_append, hpair] at hwords
  change _ < 2 ^ 32 at hwords
  rw [UInt32.toNat_sub_of_le _ _ (UInt32.le_iff_toNat_le.2 (by omega)), UInt32.toNat_add,
    hcolumn, hpair, hone, Nat.mod_eq_of_lt (by omega)]
  exact ⟨rfl, rfl⟩

/-- **Taking a pair out of a line** brings together what is around it. -/
theorem edited_cons_removePair {column : UInt32} {pre post rest : Text} {es : List TextEdit}
    (hline : u.line line.toNat = pre ++ [opening, closing] ++ post)
    (hcolumn : column.toNat = pre.width + 1) (hopening : units opening = 1)
    (hclosing : units closing = 1) (hwords : (u.line line.toNat).width < UInt32.size)
    (hrest : u.edited line.toNat es = pre ++ [opening, closing] ++ rest) :
    u.edited line.toNat (removePair ⟨line, column⟩ :: es) = pre ++ rest := by
  obtain ⟨hstart, hstop⟩ := toNat_column_pair hline hcolumn hopening hclosing hwords
  have hindexstart : (u.line line.toNat).index pre.width = pre.length := by
    rw [hline, List.append_assoc, index_width_append]
  have hindexstop : (u.line line.toNat).index (Text.width (pre ++ [opening, closing]))
      = (pre ++ [opening, closing]).length := by
    rw [hline, index_width_append]
  have hcons : u.edited line.toNat (removePair ⟨line, column⟩ :: es)
      = (u.edited line.toNat es).take ((u.line line.toNat).index (column - 1).toNat) ++ []
        ++ (u.edited line.toNat es).drop ((u.line line.toNat).index (column + 1).toNat) :=
    edited_cons_of_eq rfl
  rw [hcons, hrest, hstart, hstop, hindexstart, hindexstop, List.drop_left, List.append_nil,
    List.append_assoc, List.take_left]

/-- **A position lies between two characters** of its line, or at an end of
it. -/
def AtBoundary (t : Text) (p : Position) : Prop :=
  width ((t.line p.line.toNat).take ((t.line p.line.toNat).index p.column.toNat))
    = p.column.toNat

/-- **A line is passed up to a character**: the new line is what has been passed
of it, as wide as that part of the old line and what is logged of it, and then
what the insertions to come make of the rest. -/
structure Passed (t u : Text) (opening closing : Char) (line : UInt32) (log : ShiftLog)
    (ps : List Position) (passed : Text) (n : Nat) : Prop where
  segment : u.segment line.toNat
    = passed ++ (t.edited line.toNat (ps.map (insertPair opening closing))).drop n
  width_eq : passed.width = Text.width ((t.segment line.toNat).take n) + log.total line
  le_index : ∀ p ∈ ps, p.line = line → n ≤ (t.line line.toNat).index p.column.toNat

variable {passed : Text} {n : Nat}

/-- Before all insertions nothing is passed. -/
theorem passed_nil (h : u.segment line.toNat
      = t.edited line.toNat (ps.map (insertPair opening closing))) :
    Passed t u opening closing line [] ps [] 0 :=
  ⟨h, rfl, fun _ _ _ => Nat.zero_le _⟩

/-- A cursor on another line is none to pass. -/
theorem Passed.skip (h : Passed t u opening closing line log (p :: ps) passed n)
    (hp : p.line ≠ line) :
    Passed t u opening closing line ((p.line, 2) :: log) ps passed n where
  segment := by
    have hseg := h.segment
    rwa [List.map_cons, edited_cons_of_ne fun heq => hp (UInt32.toNat_inj.1 heq)] at hseg
  width_eq := by
    rw [ShiftLog.total, if_neg hp, Nat.zero_add]
    exact h.width_eq
  le_index q hq := h.le_index q (List.mem_cons_of_mem p hq)

/-- One insertion more on a line: up to it, the later ones have left the line as
it was. -/
theorem exists_edited_insertPair (hps : (p :: ps).Pairwise fun p q => p.rank < q.rank) :
    ∃ rest, t.edited p.line.toNat (ps.map (insertPair opening closing))
        = (t.segment p.line.toNat).take ((t.line p.line.toNat).index p.column.toNat) ++ rest
      ∧ t.edited p.line.toNat ((p :: ps).map (insertPair opening closing))
        = (t.segment p.line.toNat).take ((t.line p.line.toNat).index p.column.toNat)
          ++ [opening, closing] ++ rest := by
  have hascending : Ascending ((p :: ps).map (insertPair opening closing)) :=
    ascending_map_insert (hps.imp Nat.le_of_lt) [opening, closing]
  have hline : SameLine ((p :: ps).map (insertPair opening closing)) := by
    intro e he
    obtain ⟨q, -, rfl⟩ := List.mem_map.1 he
    rfl
  exact exists_edited_cons hascending hline rfl

/-- **Passing a cursor**: the part of the line up to it is followed by its pair
and by what the insertions after it make of the rest. -/
theorem Passed.step (h : Passed t u opening closing line log (p :: ps) passed n)
    (hps : (p :: ps).Pairwise fun p q => p.rank < q.rank) (hp : p.line = line)
    (hexact : t.AtBoundary p) (hopening : units opening = 1) (hclosing : units closing = 1) :
    ∃ part, (t.segment line.toNat).drop n
        = part ++ (t.segment line.toNat).drop ((t.line line.toNat).index p.column.toNat)
      ∧ (passed ++ part).width = p.column.toNat + log.total line
      ∧ Passed t u opening closing line ((p.line, 2) :: log) ps
          (passed ++ part ++ [opening, closing])
          ((t.line line.toNat).index p.column.toNat) := by
  subst hp
  have hn := h.le_index p List.mem_cons_self rfl
  have hm := (index_le_length (t.line p.line.toNat) p.column.toNat).trans (length_line_le t _)
  have hlater : ∀ q ∈ ps, q.line = p.line → (t.line p.line.toNat).index p.column.toNat
      ≤ (t.line p.line.toNat).index q.column.toNat := by
    intro q hq hsame
    have hle := Nat.le_of_lt ((List.pairwise_cons.1 hps).1 q hq)
    exact index_mono _ (Position.column_le_of_rank_le hsame.symm hle)
  obtain ⟨rest, hrest, hpair⟩ := exists_edited_insertPair hps
  have hseg := h.segment
  rw [hpair] at hseg
  rw [AtBoundary, ← take_segment (index_le_length _ _)] at hexact
  generalize (t.line p.line.toNat).index p.column.toNat = m at *
  -- the part that is passed now lies between the characters `n` and `m`
  have hlength : ((t.segment p.line.toNat).take m).length = m := List.length_take_of_le hm
  have hpart := congrArg Text.width (@take_eq_take_append (t.segment p.line.toNat) n m hn)
  rw [width_append, hexact] at hpart
  have hwidth : (passed ++ ((t.segment p.line.toNat).take m).drop n).width
      = p.column.toNat + log.total p.line := by
    rw [width_append, h.width_eq, hpart]
    omega
  refine ⟨_, ?_, hwidth, ?_, ?_, hlater⟩
  · conv_lhs => rw [← List.take_append_drop m (t.segment p.line.toNat)]
    exact List.drop_append_of_le_length (hlength.symm ▸ hn)
  · rw [hseg, hrest, List.drop_left' hlength, List.append_assoc, List.append_assoc,
      List.drop_append_of_le_length (hlength.symm ▸ hn), List.append_assoc]
  · rw [width_append, hwidth, hexact, width_cons, width_cons, hopening, hclosing, ShiftLog.total,
      if_pos rfl, Nat.add_assoc, Nat.add_comm (log.total p.line)]
    rfl

/-- A pair that has just been passed is on the line, not part of its ending. -/
theorem Passed.exists_line_eq {pre : Text}
    (h : Passed t u opening closing line log ps (pre ++ [opening, closing]) n)
    (hclosing : closing ≠ '\r') :
    ∃ post, u.line line.toNat = pre ++ [opening, closing] ++ post := by
  have hlast : (pre ++ [opening, closing]).getLast? ≠ some '\r' := by
    rw [List.getLast?_append_of_ne_nil _ (List.cons_ne_nil _ _)]
    exact fun heq => hclosing (Option.some.inj heq)
  rw [Text.line, h.segment]
  exact ⟨_, dropReturn_append (.inr hlast)⟩

/-- **Taking out the pairs of the cursors to come leaves the rest of the old
line**, and there is a pair around each of them. -/
theorem Passed.edited_removePair (h : Passed t u opening closing line log ps passed n)
    (hps : ps.Pairwise fun p q => p.rank < q.rank) (hexact : ∀ p ∈ ps, t.AtBoundary p)
    (hroom : HasRoom log (ps.map (insertPair opening closing)) ps)
    (hopening : units opening = 1) (hclosing : units closing = 1) (hreturn : closing ≠ '\r')
    (hwords : (u.line line.toNat).width < UInt32.size) :
    u.edited line.toNat ((insideCursors log ps).map removePair)
        = passed ++ (t.segment line.toNat).drop n
      ∧ ∀ q ∈ insideCursors log ps, q.line = line → u.HasPair opening closing q := by
  induction ps generalizing log passed n with
  | nil => exact ⟨h.segment, nofun⟩
  | cons p ps ih =>
    obtain ⟨hp, hps'⟩ := List.forall_mem_cons.1 hexact
    have htail := hroom.tail hopening hclosing
    by_cases hline : p.line = line
    · obtain ⟨part, hdrop, hwidth, hnext⟩ := h.step hps hline hp hopening hclosing
      obtain ⟨hrest, hpairs⟩ := ih hnext (List.pairwise_cons.1 hps).2 hps' htail
      obtain ⟨post, hpost⟩ := hnext.exists_line_eq hreturn
      subst hline
      -- the new cursor lies in the pair, which its removal takes out of what is left
      have hcolumn := hroom.toNat_column hopening hclosing
      rw [← hwidth] at hcolumn
      refine ⟨?_, List.forall_mem_cons.2 ⟨fun _ => ⟨_, _, hpost, hcolumn⟩, hpairs⟩⟩
      rw [insideCursors, List.map_cons,
        edited_cons_removePair hpost hcolumn hopening hclosing hwords hrest, hdrop,
        List.append_assoc]
    · obtain ⟨hrest, hpairs⟩ := ih (h.skip hline) (List.pairwise_cons.1 hps).2 hps' htail
      refine ⟨?_, List.forall_mem_cons.2 ⟨fun heq => absurd heq hline, hpairs⟩⟩
      rw [insideCursors, List.map_cons,
        edited_cons_of_ne fun heq => hline (UInt32.toNat_inj.1 heq), hrest]

end Text

/-! ## Where pairs are inserted -/

theorem units_of_isPairable {c : Char} (h : isPairable c) : units c = 1 := by
  rw [isPairable, List.contains_iff_mem] at h
  simp only [List.mem_cons, List.not_mem_nil, or_false] at h
  rcases h with rfl | rfl | rfl | rfl | rfl | rfl | rfl | rfl | rfl <;> rfl

/-- The pairs that backspace takes as one are of plain characters, one column
wide. -/
theorem plain_of_mem_emptyPairs (h : [opening, closing] ∈ emptyPairs) :
    (∀ c ∈ [opening, closing], c ≠ '\n' ∧ c ≠ '\r') ∧ units opening = 1 ∧ units closing = 1 := by
  simp only [emptyPairs, List.mem_cons, List.not_mem_nil, or_false] at h
  rcases h with h | h | h | h | h <;> cases h <;> exact ⟨by simp, rfl, rfl⟩

/-- Cursors in order are sorted. -/
theorem heads_map_cursor (h : ps.Pairwise fun p q => p.rank < q.rank) :
    (Selection.sortByStart (ps.map .cursor)).map (·.head) = ps := by
  have hgaps := (Selection.pairwise_map_cursor.2 h).imp fun {r s} hrs =>
    (r.start_le_stop.trans_lt hrs).le
  rw [Selection.sortByStart_of_pairwise hgaps, List.map_map]
  exact List.map_id ps

/-- What is inserted at cursors in order. -/
theorem insertPairs_map_cursor (hpair : [opening, closing] ∈ emptyPairs)
    (h : ps.Pairwise fun p q => p.rank < q.rank) :
    insertPairs (ps.map .cursor) opening closing
      = ⟨ps.map (insertPair opening closing), (insideCursors [] ps).map .cursor⟩ := by
  obtain ⟨-, hopening, hclosing⟩ := plain_of_mem_emptyPairs hpair
  rw [insertPairs, heads_map_cursor h, pairCursors_eq_map hopening hclosing]
  rfl

variable {source : TokenSource} {ss : List Selection} {plan : EditPlan}

/-- Where a pair may be inserted, there is no character that it would part. -/
theorem atBoundary_of_pairable (hsource : ∀ line, source.lineText line = t.line line.toNat)
    (hp : t.Reach [] p) (h : source.pairable p) : t.AtBoundary p := by
  refine Text.width_take_index hp.2 fun c hc => units_of_isPairable ?_
  rw [TokenSource.pairable, TokenSource.charAfter, hsource] at h
  exact (Option.all_eq_true _ _).1 h c hc

/-- **An opening key that edits at cursors inserts pairs**, and every cursor has
room for one. -/
theorem eq_insertPairs_of_openPair (hempty : ∀ s ∈ ss, s.isEmpty)
    (h : openPair source ss opening closing = .edit plan) (hedits : plan.edits ≠ []) :
    plan = insertPairs ss opening closing ∧ ∀ s ∈ ss, source.pairable s.head := by
  have hclose : closePair source ss closing ≠ .edit plan := by
    unfold closePair
    split_ifs
    · exact fun heq => hedits (KeyOutcome.edit.inj heq ▸ rfl)
    · exact nofun
  unfold openPair at h
  split_ifs at h with hnil _ hroom hfull
  · exact absurd h hclose
  · exact ⟨(KeyOutcome.edit.inj h).symm, fun s hs => (hroom s hs).2⟩
  · obtain ⟨s, hs⟩ := List.exists_mem_of_ne_nil ss hnil
    exact absurd (hempty s hs) (hfull s hs)
  · exact absurd h hclose

/-! ## Taking the pairs back -/

/-- Pairs that do not overlap are all removed. -/
theorem keptPairs_of_pairwise {last : Option Position}
    (hlast : ∀ stop ∈ last, ∀ q ∈ ps, stop.rank ≤ (removePair q).start.rank)
    (hps : ps.Pairwise fun p q => (removePair p).stop.rank ≤ (removePair q).start.rank) :
    keptPairs last ps = ps := by
  induction ps generalizing last with
  | nil => rfl
  | cons p ps ih =>
    obtain ⟨hp, hps⟩ := List.pairwise_cons.1 hps
    have hnot : ¬ last.any fun stop => (⟨p.line, p.column - 1⟩ : Position) < stop := by
      intro hany
      obtain ⟨stop, hstop, hlt⟩ := (Option.any_eq_true _ _).1 hany
      rw [decide_eq_true_eq, Position.lt_iff_rank_lt] at hlt
      exact absurd (hlast stop hstop p List.mem_cons_self) (Nat.not_le.2 hlt)
    rw [keptPairs, if_neg hnot]
    refine congrArg (p :: ·) (ih (fun stop hstop => ?_) hps)
    obtain rfl := Option.some.inj hstop
    exact hp

/-- **A text with pairs typed into it**: `u` is `t` with a pair at each of the
positions, which lie between characters and come in order, and its columns are
words. -/
structure Text.PairsInserted (t u : Text) (opening closing : Char) (ps : List Position) :
    Prop where
  mem_emptyPairs : [opening, closing] ∈ emptyPairs
  pairwise : ps.Pairwise fun p q => p.rank < q.rank
  reach : ∀ p ∈ ps, t.Reach [] p
  atBoundary : ∀ p ∈ ps, t.AtBoundary p
  length : u.segments.length = t.segments.length
  segment : ∀ i, u.segment i = t.edited i (ps.map (insertPair opening closing))
  words : ∀ i, (u.line i).width < UInt32.size

theorem ascending_insertPair (h : ps.Pairwise fun p q => p.rank < q.rank) :
    Ascending (ps.map (insertPair opening closing)) :=
  ascending_map_insert (h.imp Nat.le_of_lt) [opening, closing]

theorem within_insertPair (hpair : [opening, closing] ∈ emptyPairs)
    (h : ∀ p ∈ ps, t.Reach [] p) : ∀ e ∈ ps.map (insertPair opening closing), e.Within t := by
  intro e he
  obtain ⟨p, hp, rfl⟩ := List.mem_map.1 he
  have hplain := (plain_of_mem_emptyPairs hpair).1
  exact within_insert (h p hp).line_lt fun hmem => (hplain _ hmem).1 rfl

/-- Inserting pairs makes such a text. -/
theorem pairsInserted_of_apply (hpair : [opening, closing] ∈ emptyPairs)
    (hps : ps.Pairwise fun p q => p.rank < q.rank) (hreach : ∀ p ∈ ps, t.Reach [] p)
    (hboundary : ∀ p ∈ ps, t.AtBoundary p) {selections : List Selection}
    (h : EditPlan.apply ⟨ps.map (insertPair opening closing), selections⟩ t = .ok u)
    (hwords : ∀ i, (u.line i).width < UInt32.size) : t.PairsInserted u opening closing ps := by
  have hascending : Ascending (ps.map (insertPair opening closing)) := ascending_insertPair hps
  obtain ⟨hlength, hsegment⟩ :=
    Text.segment_foldr_replace hascending (within_insertPair hpair hreach)
  rw [EditPlan.apply_of_ascending hascending] at h
  obtain rfl := Except.ok.inj h
  exact ⟨hpair, hps, hreach, hboundary, hlength, hsegment, hwords⟩

namespace Text.PairsInserted

variable (h : t.PairsInserted u opening closing ps)

include h

/-- **The new lines are wide enough** for all that is inserted in them. -/
theorem hasRoom : HasRoom [] (ps.map (insertPair opening closing)) ps := by
  intro p hp
  have hplain := (plain_of_mem_emptyPairs h.mem_emptyPairs).1
  have hwidth := width_line_edited (ascending_insertPair h.pairwise)
    (within_insertPair h.mem_emptyPairs h.reach) (h.segment p.line.toNat)
  have hexposed : ¬ ReturnExposed t u p.line.toNat := by
    rintro ⟨hnew, hold⟩
    rw [h.segment] at hnew
    refine hold (not_exposed_of_insert (fun e he => ?_) hnew)
    obtain ⟨q, -, rfl⟩ := List.mem_map.1 he
    exact ⟨fun hmem => (hplain _ hmem).2 rfl, List.cons_ne_nil _ _⟩
  have hremoved : removed p.line.toNat (ps.map (insertPair opening closing)) = 0 := by
    refine removed_eq_zero fun e he => ?_
    obtain ⟨q, -, rfl⟩ := List.mem_map.1 he
    rfl
  have hcolumn := (h.reach p hp).2
  have hwords := h.words p.line.toNat
  rw [if_neg hexposed, hremoved] at hwidth
  change _ + 0 ≤ _ + 0 at hcolumn
  change _ + (0 + _) < _
  omega

/-- **On every line, the pairs lie around the new cursors**, and taking them out
leaves the line as it was. -/
theorem edited_removePair (line : UInt32) :
    u.edited line.toNat ((insideCursors [] ps).map removePair) = t.segment line.toNat
      ∧ ∀ q ∈ insideCursors [] ps, q.line = line → u.HasPair opening closing q := by
  obtain ⟨hplain, hopening, hclosing⟩ := plain_of_mem_emptyPairs h.mem_emptyPairs
  exact (passed_nil (h.segment line.toNat)).edited_removePair h.pairwise h.atBoundary h.hasRoom
    hopening hclosing (hplain closing (by simp)).2 (h.words line.toNat)

theorem hasPair {q : Position} (hq : q ∈ insideCursors [] ps) : u.HasPair opening closing q :=
  (h.edited_removePair q.line).2 q hq rfl

/-- The new cursors lie within the text. -/
theorem reach_insideCursors {q : Position} (hq : q ∈ insideCursors [] ps) : u.Reach [] q := by
  obtain ⟨hplain, hopening, hclosing⟩ := plain_of_mem_emptyPairs h.mem_emptyPairs
  obtain ⟨p, hp, hline, -⟩ := h.hasRoom.le_column hopening hclosing q hq
  obtain ⟨pre, post, hpost, hcolumn⟩ := h.hasPair hq
  refine ⟨?_, ?_⟩
  · rw [h.length, hline]
    exact (h.reach p hp).1
  · rw [hpost, hcolumn, width_append, width_append, width_cons, hopening]
    show _ + 0 ≤ _ + 0
    omega

/-- Backspace finds a pair around each new cursor. -/
theorem inEmptyPair {source : TokenSource}
    (hsource : ∀ line, source.lineText line = u.line line.toNat) {q : Position}
    (hq : q ∈ insideCursors [] ps) : source.inEmptyPair q := by
  obtain ⟨-, hopening, hclosing⟩ := plain_of_mem_emptyPairs h.mem_emptyPairs
  obtain ⟨pre, post, hpost, hcolumn⟩ := h.hasPair hq
  obtain ⟨hstart, hstop⟩ := toNat_column_pair hpost hcolumn hopening hclosing (h.words _)
  have hne : q.column ≠ 0 := by
    intro hzero
    rw [hzero] at hcolumn
    exact absurd hcolumn (Nat.succ_ne_zero _).symm
  rw [TokenSource.inEmptyPair, Bool.and_eq_true, decide_eq_true_eq, hsource, hpost, hstart, hstop,
    width_append, slice_append_append]
  exact ⟨hne, List.contains_iff_mem.2 h.mem_emptyPairs⟩

/-- **The pairs around the new cursors do not overlap.** -/
theorem pairwise_removePair : (insideCursors [] ps).Pairwise fun p q =>
    (removePair p).stop.rank ≤ (removePair q).start.rank := by
  obtain ⟨-, hopening, hclosing⟩ := plain_of_mem_emptyPairs h.mem_emptyPairs
  refine (pairwise_insideCursors hopening hclosing h.hasRoom h.pairwise).imp fun {p q} hpq => ?_
  show p.line.toNat * 2 ^ 32 + (p.column + 1).toNat ≤ q.line.toNat * 2 ^ 32 + (q.column - 1).toNat
  rcases hpq with hlt | ⟨heq, hlt⟩
  · have hcolumn := (p.column + 1).toNat_lt
    rw [UInt32.lt_iff_toNat_lt] at hlt
    omega
  · have hone : (1 : UInt32).toNat = 1 := rfl
    have hadd := toNat_add_le p.column 1
    rw [heq, UInt32.toNat_sub_of_le _ _ (UInt32.le_iff_toNat_le.2 (by omega))]
    omega

/-- **The new cursors are in normal form.** -/
theorem pairwise_insideCursors : ((insideCursors [] ps).map Selection.cursor).Pairwise
    fun r s => r.stop.rank < s.start.rank := by
  obtain ⟨-, hopening, hclosing⟩ := plain_of_mem_emptyPairs h.mem_emptyPairs
  have hpairwise :=
    EditorCore.pairwise_insideCursors hopening hclosing h.hasRoom h.pairwise
  refine Selection.pairwise_map_cursor.2 (hpairwise.imp fun {p q} hpq => ?_)
  rw [← Position.lt_iff_rank_lt]
  refine hpq.imp id fun ⟨heq, hlt⟩ => ⟨heq, UInt32.lt_iff_toNat_lt.2 ?_⟩
  omega

/-- **Backspace plans to remove the pairs**, with the old cursors. -/
theorem backspace_eq {source : TokenSource}
    (hsource : ∀ line, source.lineText line = u.line line.toNat) (hne : ps ≠ []) :
    backspace source ((insideCursors [] ps).map .cursor)
      = .edit ⟨(insideCursors [] ps).map removePair, ps.map .cursor⟩ := by
  have hcursors : (insideCursors [] ps).map Selection.cursor ≠ [] := by
    obtain ⟨p, ps, rfl⟩ := List.exists_cons_of_ne_nil hne
    exact List.cons_ne_nil _ _
  have hinside : ∀ s ∈ (insideCursors [] ps).map Selection.cursor,
      s.isEmpty ∧ source.inEmptyPair s.head := by
    intro s hs
    obtain ⟨q, hq, rfl⟩ := List.mem_map.1 hs
    exact ⟨decide_eq_true rfl, h.inEmptyPair hsource hq⟩
  have hheads := heads_map_cursor (Selection.pairwise_map_cursor.1 h.pairwise_insideCursors)
  have hkept : keptPairs none (insideCursors [] ps) = insideCursors [] ps :=
    keptPairs_of_pairwise nofun h.pairwise_removePair
  rw [backspace, if_pos ⟨hcursors, hinside⟩, hheads, hkept]
  dsimp only
  rw [removalCursors_insideCursors]
  rfl

/-- **Removing the pairs restores the text.** -/
theorem apply_removePair {source : TokenSource}
    (hsource : ∀ line, source.lineText line = u.line line.toNat) (selections : List Selection) :
    EditPlan.apply ⟨(insideCursors [] ps).map removePair, selections⟩ u = .ok t := by
  have hascending : Ascending ((insideCursors [] ps).map removePair) := by
    refine ⟨fun e he => ?_, List.pairwise_map.2 h.pairwise_removePair⟩
    obtain ⟨q, hq, rfl⟩ := List.mem_map.1 he
    exact start_le_stop_removePair (h.inEmptyPair hsource hq)
  have hwithin : ∀ e ∈ (insideCursors [] ps).map removePair, e.Within u := by
    intro e he
    obtain ⟨q, hq, rfl⟩ := List.mem_map.1 he
    exact (pairAt_of_inEmptyPair hsource (h.reach_insideCursors hq)
      (h.inEmptyPair hsource hq)).within
  obtain ⟨hlength, hsegment⟩ := segment_foldr_replace hascending hwithin
  rw [EditPlan.apply_of_ascending hascending]
  refine congrArg Except.ok (ext_segment (hlength.trans h.length) fun i => ?_)
  rw [hsegment]
  rcases Nat.lt_or_ge i UInt32.size with hlt | hge
  · have hline := (h.edited_removePair (.ofNat i)).1
    rwa [UInt32.toNat_ofNat_of_lt' hlt] at hline
  · -- no position is on a line that far down
    have hnone : ∀ e : TextEdit, e.start.line.toNat ≠ i :=
      fun e => (e.start.line.toNat_lt.trans_le hge).ne
    rw [edited_eq_segment fun e _ => hnone e, h.segment, edited_eq_segment fun e _ => hnone e]

end Text.PairsInserted

end EditorCore
