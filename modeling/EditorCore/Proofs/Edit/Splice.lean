import EditorCore.Proofs.Edit.Ascending

/-!
# Edits in one pass

A plan is applied in two passes, one that checks its edits and one that makes
them, from the last to the first and each on what the later ones have left.
Read in one pass instead, the buffer after the edits is what lies between them
with the new texts in their places (`Text.spliced`): the text up to the first
edit, its new text, the text up to the second, and so on to the end.

The two come to the same because every edit lies before the later ones: the
text up to where it stops is still that of the buffer when it is made
(`EditPlan.foldr_replace`). Positions may lie anywhere, so that an edit may stop
before it starts or inside a character; but every position is found between two
characters, and so is the range of every edit when its turn comes.
-/

namespace EditorCore

namespace TextEdit

/-- The byte at which an edit stops; an edit that would stop before it starts
stops there. -/
def stopByte (t : Text) (e : TextEdit) : Nat := max (t.offset e.start) (t.offset e.stop)

/-- **An edit follows another**: it starts no earlier than the other stops. -/
def Follows (t : Text) (e f : TextEdit) : Prop := e.stopByte t ≤ t.offset f.start

instance (t : Text) (e f : TextEdit) : Decidable (Follows t e f) :=
  inferInstanceAs (Decidable (_ ≤ _))

/-- The number of characters before the place where an edit stops. -/
def stopChars (t : Text) (e : TextEdit) : Nat :=
  max (t.charsBefore e.start) (t.charsBefore e.stop)

theorem stopByte_eq_byteAt (t : Text) (e : TextEdit) :
    e.stopByte t = t.byteAt (e.stopChars t) := by
  rw [stopByte, stopChars, Text.offset_eq_byteAt, Text.offset_eq_byteAt]
  exact t.byteAt_mono.map_max.symm

theorem stopChars_le_length (t : Text) (e : TextEdit) : e.stopChars t ≤ t.length :=
  Nat.max_le.2 ⟨t.charsBefore_le_length _, t.charsBefore_le_length _⟩

end TextEdit

namespace Text

/-- **The text from a byte on with edits made in one pass**: up to each edit the
text as it is, then the new text. -/
def spliced (t : Text) (byte : Nat) : List TextEdit → Text
  | [] => t.dropBytes byte
  | e :: es =>
    (t.takeBytes (t.offset e.start)).dropBytes byte ++ e.newText ++ t.spliced (e.stopByte t) es

/-- A character that starts no later than another comes no later. -/
theorem le_of_byteAt_le {t : Text} {m n : Nat} (hm : m ≤ t.length)
    (h : t.byteAt m ≤ t.byteAt n) : m ≤ n := by
  by_contra hlt
  have hn : n < m := Nat.lt_of_not_le hlt
  exact absurd ((byteAt_lt_iff (hn.trans_le hm)).2 hn) (Nat.not_lt.2 h)

/-- The text between two bytes at which characters start. -/
theorem take_append_dropBytes_takeBytes {t : Text} {m n : Nat} (hmn : m ≤ n) (hn : n ≤ t.length) :
    t.take m ++ (t.takeBytes (t.byteAt n)).dropBytes (t.byteAt m) = t.take n := by
  rw [dropBytes_takeBytes_byteAt hmn hn]
  conv_rhs => rw [← List.take_append_drop m (t.take n), List.take_take, Nat.min_eq_left hmn]

end Text

namespace EditPlan

open TextEdit

variable {t : Text} {e f : TextEdit} {es : List TextEdit}

/-! ## The check -/

/-- The bytes an edit replaces end where it stops. -/
theorem locate_eq (t : Text) (e : TextEdit) :
    e.locate t = ⟨t.offset e.start, e.stopByte t, e.newText⟩ := rfl

theorem overlap?_cons (stop : Nat) :
    overlap? t stop (e :: es)
      = if t.offset e.start < stop then some e.start else overlap? t (e.stopByte t) es := rfl

/-- A chain over the first edits of a plan goes on to an edit put before them
when it follows that one. -/
theorem isChain_cons_split {before after : List TextEdit} {g : TextEdit}
    (h : f :: es = before ++ g :: after) :
    (e :: (before ++ [g])).IsChain (Follows t)
      ↔ Follows t e f ∧ (before ++ [g]).IsChain (Follows t) := by
  cases before with
  | nil =>
    obtain ⟨rfl, -⟩ : f = g ∧ es = after := by simpa using h
    exact List.isChain_cons_cons
  | cons f' before =>
    obtain ⟨rfl, -⟩ : f = f' ∧ es = before ++ g :: after := by simpa using h
    exact List.isChain_cons_cons

/-- **The check finds the first edit that does not follow the one before it.** -/
theorem overlap?_eq_some_iff {p : Position} :
    overlap? t (e.stopByte t) es = some p ↔
      ∃ before g f after, e :: es = before ++ g :: f :: after
        ∧ (before ++ [g]).IsChain (Follows t) ∧ ¬ Follows t g f ∧ f.start = p := by
  induction es generalizing e with
  | nil =>
    refine ⟨nofun, ?_⟩
    rintro ⟨before, g, f, after, hsplit, -⟩
    have hlen := congrArg List.length hsplit
    rw [List.length_append] at hlen
    simp only [List.length_cons, List.length_nil] at hlen
    omega
  | cons f es ih =>
    rw [overlap?_cons]
    split_ifs with hlt
    · rw [Option.some.injEq]
      refine ⟨fun hp => ⟨[], e, f, es, rfl, .singleton e, Nat.not_le.2 hlt, hp⟩, ?_⟩
      rintro ⟨before, g, f', after, hsplit, hchain, hnot, hp⟩
      cases before with
      | nil =>
        obtain ⟨rfl, rfl, rfl⟩ : e = g ∧ f = f' ∧ es = after := by simpa using hsplit
        exact hp
      | cons e' before =>
        -- the second edit already fails to follow the first
        obtain ⟨rfl, hrest⟩ := List.cons_eq_cons.1 hsplit
        exact absurd ((isChain_cons_split hrest).1 hchain).1 (Nat.not_le.2 hlt)
    · have hfollows : Follows t e f := Nat.le_of_not_lt hlt
      rw [ih]
      constructor
      · rintro ⟨before, g, f', after, hsplit, hchain, hnot, hp⟩
        exact ⟨e :: before, g, f', after, congrArg (e :: ·) hsplit,
          (isChain_cons_split hsplit).2 ⟨hfollows, hchain⟩, hnot, hp⟩
      · rintro ⟨before, g, f', after, hsplit, hchain, hnot, hp⟩
        cases before with
        | nil =>
          obtain ⟨rfl, rfl, rfl⟩ : e = g ∧ f = f' ∧ es = after := by simpa using hsplit
          exact absurd hfollows hnot
        | cons e' before =>
          obtain ⟨rfl, hrest⟩ := List.cons_eq_cons.1 hsplit
          exact ⟨before, g, f', after, hrest, ((isChain_cons_split hrest).1 hchain).2, hnot, hp⟩

/-- **The check passes exactly when every edit follows the one before it.** -/
theorem overlap?_eq_none_iff :
    overlap? t (e.stopByte t) es = none ↔ (e :: es).IsChain (Follows t) := by
  induction es generalizing e with
  | nil => exact ⟨fun _ => .singleton e, fun _ => rfl⟩
  | cons f es ih =>
    rw [overlap?_cons, List.isChain_cons_cons]
    split_ifs with hlt
    · exact ⟨nofun, fun h => absurd h.1 (Nat.not_le.2 hlt)⟩
    · exact ih.trans (and_iff_right (Nat.le_of_not_lt hlt)).symm

/-- The first edit of a plan is never refused. -/
theorem overlap?_zero_cons : overlap? t 0 (e :: es) = overlap? t (e.stopByte t) es := by
  rw [overlap?_cons, if_neg (Nat.not_lt_zero _)]

theorem overlap?_zero_eq_none_iff : overlap? t 0 es = none ↔ es.IsChain (Follows t) := by
  cases es with
  | nil => exact ⟨fun _ => .nil, fun _ => rfl⟩
  | cons e es => rw [overlap?_zero_cons, overlap?_eq_none_iff]

theorem overlap?_zero_eq_some_iff {p : Position} :
    overlap? t 0 es = some p ↔
      ∃ before e f after, es = before ++ e :: f :: after
        ∧ (before ++ [e]).IsChain (Follows t) ∧ ¬ Follows t e f ∧ f.start = p := by
  cases es with
  | nil => exact ⟨nofun, fun ⟨before, e, f, after, h, _⟩ => absurd h (by simp)⟩
  | cons e es => rw [overlap?_zero_cons, overlap?_eq_some_iff]

/-! ## The edits, from the last to the first -/

/-- **One edit**, in a text that is the buffer up to where the edit stops. -/
theorem replace_take_append (e : TextEdit) (rest : Text) :
    (e.locate t).replace (t.take (e.stopChars t) ++ rest)
      = t.take (t.charsBefore e.start) ++ e.newText ++ rest := by
  have hlen : (t.take (e.stopChars t)).length = e.stopChars t :=
    List.length_take_of_le (e.stopChars_le_length t)
  have hwithin : t.charsBefore e.start ≤ e.stopChars t := Nat.le_max_left _ _
  have hbyte : ∀ n ≤ e.stopChars t,
      t.byteAt n = Text.byteAt (t.take (e.stopChars t) ++ rest) n := by
    intro n hn
    rw [Text.byteAt_append_of_le (hlen.symm ▸ hn), Text.byteAt, Text.byteAt, List.take_take,
      Nat.min_eq_left hn]
  have hbound : e.stopChars t ≤ (t.take (e.stopChars t) ++ rest).length := by
    rw [List.length_append, hlen]
    exact Nat.le_add_right _ _
  rw [locate_eq, Splice.replace, Text.offset_eq_byteAt, stopByte_eq_byteAt, hbyte _ hwithin,
    hbyte _ le_rfl, Text.takeBytes_byteAt (hwithin.trans hbound), Text.dropBytes_byteAt hbound,
    List.take_append_of_le_length (hlen.symm ▸ hwithin), List.take_take, Nat.min_eq_left hwithin,
    List.drop_left' hlen]

/-- **Edits made from the last to the first** leave the text before them and
put the splice of the rest after it. -/
theorem foldr_replace {n : Nat} (hn : n ≤ t.length) (hchain : es.IsChain (Follows t))
    (hstart : ∀ e ∈ es.head?, t.byteAt n ≤ t.offset e.start) :
    (es.map (·.locate t)).foldr Splice.replace t = t.take n ++ t.spliced (t.byteAt n) es := by
  induction es generalizing n with
  | nil => rw [Text.spliced, Text.dropBytes_byteAt hn, List.take_append_drop]; rfl
  | cons e es ih =>
    have hle : n ≤ t.charsBefore e.start := by
      refine Text.le_of_byteAt_le hn ?_
      rw [← Text.offset_eq_byteAt]
      exact hstart e rfl
    have hnext : ∀ f ∈ es.head?, t.byteAt (e.stopChars t) ≤ t.offset f.start := by
      intro f hf
      rw [← stopByte_eq_byteAt]
      exact hchain.rel_head? hf
    rw [List.map_cons, List.foldr_cons, ih (e.stopChars_le_length t) hchain.tail hnext,
      replace_take_append, Text.spliced, Text.offset_eq_byteAt,
      ← Text.take_append_dropBytes_takeBytes hle (t.charsBefore_le_length _), stopByte_eq_byteAt]
    simp only [List.append_assoc]

/-- **A plan is applied in one pass.** -/
theorem apply_eq (plan : EditPlan) (t : Text) :
    plan.apply t = match overlap? t 0 plan.edits with
      | some p => .error (.overlapping p)
      | none => .ok (t.spliced 0 plan.edits) := by
  cases h : overlap? t 0 plan.edits with
  | some p => rw [apply, h]
  | none =>
    rw [apply, h]
    exact congrArg Except.ok (foldr_replace (Nat.zero_le _) (overlap?_zero_eq_none_iff.1 h)
      fun _ _ => Nat.zero_le _)

/-! ## Insertions at one position -/

/-- Two insertions at one position are found to overlap where one is. -/
theorem overlap?_insert_insert (p : Position) (a b : Text) (stop : Nat) :
    overlap? t stop (insert p a :: insert p b :: es)
      = overlap? t stop (insert p (a ++ b) :: es) := by
  have hself : (insert p a).stopByte t = t.offset p := Nat.max_self _
  rw [overlap?_cons, overlap?_cons, overlap?_cons, hself]
  exact if_congr Iff.rfl rfl (if_neg (Nat.lt_irrefl _))

/-- **Two insertions at one position** insert the first text and then the
second. -/
theorem spliced_insert_insert (p : Position) (a b : Text) (byte : Nat) :
    t.spliced byte (insert p a :: insert p b :: es) = t.spliced byte (insert p (a ++ b) :: es) := by
  have hself (text : Text) : (insert p text).stopByte t = t.offset p := Nat.max_self _
  have hnone : (t.takeBytes (t.offset p)).dropBytes (t.offset p) = [] := by
    rw [Text.offset_eq_byteAt, Text.dropBytes_takeBytes_byteAt le_rfl (t.charsBefore_le_length p),
      List.drop_take, Nat.sub_self, List.take_zero]
  rw [Text.spliced, Text.spliced, Text.spliced, hself, hself, hself]
  dsimp only [TextEdit.insert]
  rw [hnone]
  simp only [List.append_assoc, List.nil_append]

/-- Edits that are checked alike are checked alike after the same edits. -/
theorem overlap?_append_congr {es' : List TextEdit} (before : List TextEdit)
    (h : ∀ stop, overlap? t stop es = overlap? t stop es') (stop : Nat) :
    overlap? t stop (before ++ es) = overlap? t stop (before ++ es') := by
  induction before generalizing stop with
  | nil => exact h stop
  | cons e before ih => rw [List.cons_append, List.cons_append, overlap?_cons, overlap?_cons, ih]

/-- Edits with one splice have one splice after the same edits. -/
theorem spliced_append_congr {es' : List TextEdit} (before : List TextEdit)
    (h : ∀ byte, t.spliced byte es = t.spliced byte es') (byte : Nat) :
    t.spliced byte (before ++ es) = t.spliced byte (before ++ es') := by
  induction before generalizing byte with
  | nil => exact h byte
  | cons e before ih => rw [List.cons_append, List.cons_append, Text.spliced, Text.spliced, ih]

theorem apply_insert_insert (before : List TextEdit) (ss : List Selection) (p : Position)
    (a b : Text) :
    apply ⟨before ++ insert p a :: insert p b :: es, ss⟩ t
      = apply ⟨before ++ insert p (a ++ b) :: es, ss⟩ t := by
  rw [apply_eq, apply_eq, overlap?_append_congr before (overlap?_insert_insert p a b),
    spliced_append_congr before (spliced_insert_insert p a b)]

/-! ## What an edit replaces -/

/-- **What an edit replaces** stands between two characters of the buffer. -/
theorem exists_replaced (t : Text) (e : TextEdit) :
    ∃ mid, t.take (t.charsBefore e.start) ++ mid = t.take (e.stopChars t)
      ∧ Text.byteSize (t.take (t.charsBefore e.start)) = t.offset e.start
      ∧ Text.byteSize (t.take (t.charsBefore e.start) ++ mid) = e.stopByte t := by
  have hwithin : t.charsBefore e.start ≤ e.stopChars t := Nat.le_max_left _ _
  have hmid := Text.take_append_dropBytes_takeBytes hwithin (e.stopChars_le_length t)
  refine ⟨_, hmid, (Text.offset_eq_byteAt t e.start).symm, ?_⟩
  rw [hmid, stopByte_eq_byteAt, Text.byteAt]

/-- **An edit when its turn comes**: the text up to where it stops is that of
the buffer still. -/
theorem foldr_replace_tail (hchain : (e :: es).IsChain (Follows t)) :
    (es.map (·.locate t)).foldr Splice.replace t
      = t.take (e.stopChars t) ++ t.spliced (e.stopByte t) es := by
  rw [stopByte_eq_byteAt]
  refine foldr_replace (e.stopChars_le_length t) hchain.tail fun f hf => ?_
  rw [← stopByte_eq_byteAt]
  exact hchain.rel_head? hf

/-! ## Plans -/

/-- **Applying a plan is one splice.** The edits are made exactly when each
follows the one before it, and the buffer is then their splice, in which
insertions at one position stand in the order of the plan. Otherwise the error
names the start of the first edit that does not follow the one before it.
However wide of the buffer its positions lie, what an edit replaces stands
between two characters, in the buffer and where the later edits have been
made. -/
theorem apply_eq_spliced (plan : EditPlan) (t : Text) :
    (∀ u, plan.apply t = .ok u ↔
      plan.edits.IsChain (Follows t) ∧ u = t.spliced 0 plan.edits)
    ∧ (∀ p, plan.apply t = .error (.overlapping p) ↔
      ∃ before e f after, plan.edits = before ++ e :: f :: after
        ∧ (before ++ [e]).IsChain (Follows t) ∧ ¬ Follows t e f ∧ f.start = p)
    ∧ (∀ before e after, plan.edits = before ++ e :: after →
      ∃ pre mid post, t = pre ++ mid ++ post
        ∧ pre.byteSize = t.offset e.start ∧ (pre ++ mid).byteSize = e.stopByte t
        ∧ (plan.edits.IsChain (Follows t) → ∃ post',
            (after.map (·.locate t)).foldr Splice.replace t = pre ++ mid ++ post'
            ∧ ((e :: after).map (·.locate t)).foldr Splice.replace t = pre ++ e.newText ++ post'))
    ∧ ∀ before p a b after, plan.edits = before ++ insert p a :: insert p b :: after →
      plan.apply t = apply ⟨before ++ insert p (a ++ b) :: after, plan.selections⟩ t := by
  refine ⟨fun u => ?_, fun p => ?_, ?_, ?_⟩
  · rw [apply_eq, ← overlap?_zero_eq_none_iff]
    cases overlap? t 0 plan.edits with
    | some p => exact ⟨nofun, fun h => absurd h.1 nofun⟩
    | none => exact ⟨fun h => ⟨rfl, (Except.ok.inj h).symm⟩, fun h => congrArg Except.ok h.2.symm⟩
  · rw [apply_eq, ← overlap?_zero_eq_some_iff]
    cases overlap? t 0 plan.edits <;> simp
  · intro before e after hedits
    obtain ⟨mid, hmid, hstart, hstop⟩ := exists_replaced t e
    refine ⟨_, mid, t.drop (e.stopChars t), ?_, hstart, hstop, fun hchain => ?_⟩
    · rw [hmid, List.take_append_drop]
    · rw [hedits] at hchain
      have htail := foldr_replace_tail hchain.right_of_append
      refine ⟨_, hmid ▸ htail, ?_⟩
      rw [List.map_cons, List.foldr_cons, htail, replace_take_append]
  · rintro before p a b after hedits
    rw [show plan = ⟨before ++ insert p a :: insert p b :: after, plan.selections⟩ by
      rw [← hedits]]
    exact apply_insert_insert before plan.selections p a b

example : apply ⟨[insert ⟨0, 1⟩ [')'], insert ⟨0, 1⟩ ['('], delete ⟨1, 0⟩ ⟨1, 2⟩], []⟩
    ['a', 'b', '\r', '\n', 'c', 'd'] = .ok ['a', ')', '(', 'b', '\r', '\n'] := by
  decide

end EditPlan

end EditorCore
