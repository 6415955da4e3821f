import EditorCore.Proofs.Hint.ByIndex

/-!
# Walks end

The name of an identifier is put together by two walks, and a source may answer
their probes with any tokens at all. A walk that ends is told here by the tokens it
comes to, however many those are (`Walk`), and the resolver is measured against it.

To the left every walk ends, since the guards make the columns fall. To the right
they only keep them from falling, so a walk can come to the same column over and
over. What happens at a token depends on the column where it stops alone; hence a
walk that comes to a column again never ends, one that ends comes to no more tokens
than there are columns, and the resolver has an answer for just those
(`TokenSource.segments?_eq_some_iff`). A source whose dots and upper-case
identifiers are not empty makes the columns rise, up to the last one, where the
probe for a next token stays. So there is always an answer then
(`TokenSource.walks_end`).
-/

namespace EditorCore

/-- **A walk that ends**: from a token on to the next one, through the tokens of a
list, up to one that has none. -/
inductive Walk (next? : TokenView → Option TokenView) : TokenView → List TokenView → Prop
  | stop {t : TokenView} : next? t = none → Walk next? t []
  | step {t u : TokenView} {us : List TokenView} : next? t = some u → Walk next? u us →
      Walk next? t (u :: us)

namespace Walk

variable {next? : TokenView → Option TokenView} {t v : TokenView} {us vs : List TokenView}

/-- There is one walk from a token. -/
theorem unique (h : Walk next? t us) (h' : Walk next? t vs) : us = vs := by
  induction h generalizing vs with
  | stop hnone =>
    cases h' with
    | stop => rfl
    | step hsome => exact absurd (hnone.symm.trans hsome) nofun
  | step hsome _ ih =>
    cases h' with
    | stop hnone => exact absurd (hnone.symm.trans hsome) nofun
    | step hsome' hrest =>
      obtain rfl := Option.some.inj (hsome.symm.trans hsome')
      rw [ih hrest]

/-- From a token that a walk comes to, the walk is what is left of it. -/
theorem of_mem (h : Walk next? t us) (hv : v ∈ t :: us) :
    ∃ vs, Walk next? v vs ∧ vs.length ≤ us.length := by
  induction h with
  | stop hnone =>
    obtain rfl := List.mem_singleton.1 hv
    exact ⟨[], .stop hnone, Nat.le_refl _⟩
  | @step t u us hsome hrest ih =>
    rcases List.mem_cons.1 hv with rfl | hv
    · exact ⟨u :: us, .step hsome hrest, Nat.le_refl _⟩
    · obtain ⟨vs, hwalk, hle⟩ := ih hv
      exact ⟨vs, hwalk, hle.trans (Nat.le_succ _)⟩

/-- **A walk ends if something falls on it**, by two at every step. -/
theorem exists_of_falls (height : TokenView → Nat)
    (h : ∀ t u, next? t = some u → height u + 2 ≤ height t) (t : TokenView) :
    ∃ us, Walk next? t us ∧ 2 * us.length ≤ height t := by
  induction hn : height t using Nat.strong_induction_on generalizing t with
  | _ n ih =>
    cases hnext : next? t with
    | none => exact ⟨[], .stop hnext, Nat.zero_le _⟩
    | some u =>
      have hfalls := h t u hnext
      obtain ⟨us, hwalk, hle⟩ := ih (height u) (by omega) u rfl
      refine ⟨u :: us, .step hnext hwalk, ?_⟩
      rw [List.length_cons]
      omega

end Walk

namespace TokenSource

variable {s : TokenSource} {line : UInt32} {t u : TokenView} {us : List TokenView}

/-! ## To the left -/

/-- Between a token and its qualifier there is a dot, so the columns fall by two. -/
theorem start_add_two_le (h : s.qualifier? line t = some u) :
    u.start.toNat + 2 ≤ t.start.toNat := by
  unfold qualifier? at h
  dsimp only at h
  split_ifs at h with hdot hupper
  obtain rfl := Option.some.inj h
  have hfirst := UInt32.lt_iff_toNat_lt.1 hupper.2
  have hsecond := UInt32.lt_iff_toNat_lt.1 hdot.2
  omega

/-- **The module path is that of the walk**, the last qualifier it comes to first. -/
theorem qualifiers_of_walk (h : Walk (s.qualifier? line) t us) :
    s.qualifiers line t = us.reverse.flatMap fun q => q.text ++ ['.'] := by
  induction h with
  | stop hnone => exact Document.qualifiers_of_none hnone
  | step hsome _ ih =>
    rw [Document.qualifiers_of_some hsome, ih, List.reverse_cons, List.flatMap_append,
      List.flatMap_singleton, List.append_assoc]

/-! ## To the right -/

/-- The token that the walk to the right goes on from. -/
def nextSegment? (s : TokenSource) (line : UInt32) (t : TokenView) : Option TokenView :=
  (s.segment line t).2

/-- What the walk to the right adds to the name at a token. -/
def segmentText (s : TokenSource) (line : UInt32) (t : TokenView) : Text := (s.segment line t).1

theorem segmentsWithin_succ (s : TokenSource) (line : UInt32) (steps : Nat) (t : TokenView) :
    s.segmentsWithin line (steps + 1) t
      = match s.nextSegment? line t with
        | none => some (s.segmentText line t)
        | some u => (s.segmentsWithin line steps u).map (s.segmentText line t ++ ·) := by
  rw [segmentsWithin, nextSegment?, segmentText]
  rcases s.segment line t with ⟨text, _ | u⟩ <;> rfl

/-- More steps than a walk takes are enough, and give its whole text. -/
theorem segmentsWithin_of_walk (h : Walk (s.nextSegment? line) t us) {steps : Nat}
    (hsteps : us.length < steps) :
    s.segmentsWithin line steps t = some ((t :: us).flatMap (s.segmentText line)) := by
  induction h generalizing steps with
  | @stop t hnone =>
    obtain ⟨steps, rfl⟩ := Nat.exists_eq_add_one_of_ne_zero (Nat.ne_of_gt hsteps)
    rw [segmentsWithin_succ, hnone, List.flatMap_singleton]
  | @step t u us hsome _ ih =>
    obtain ⟨steps, rfl⟩ := Nat.exists_eq_add_one_of_ne_zero (Nat.ne_of_gt (Nat.zero_lt_of_lt hsteps))
    rw [segmentsWithin_succ, hsome]
    dsimp only
    rw [ih (Nat.lt_of_succ_lt_succ hsteps), Option.map_some, List.flatMap_cons (x := t)]

/-- An answer within some steps is that of a walk. -/
theorem exists_walk_of_segmentsWithin {steps : Nat} {text : Text}
    (h : s.segmentsWithin line steps t = some text) :
    ∃ us, Walk (s.nextSegment? line) t us := by
  induction steps generalizing t text with
  | zero => exact absurd h nofun
  | succ steps ih =>
    rw [segmentsWithin_succ] at h
    cases hnext : s.nextSegment? line t with
    | none => exact ⟨[], .stop hnext⟩
    | some u =>
      rw [hnext] at h
      obtain ⟨rest, hrest, -⟩ := Option.map_eq_some_iff.1 h
      obtain ⟨us, hwalk⟩ := ih hrest
      exact ⟨u :: us, .step hnext hwalk⟩

/-- A step depends on the column where the token stops, and on nothing else of it. -/
theorem segment_congr (s : TokenSource) (line : UInt32) (h : t.stop = u.stop) :
    s.segment line t = s.segment line u := by
  unfold segment after
  rw [h]

/-- **A walk that ends comes to no column twice**: it would go on from there as it
did before. -/
theorem nodup_stops (h : Walk (s.nextSegment? line) t us) :
    ((t :: us).map (·.stop)).Nodup := by
  induction h with
  | stop => exact List.nodup_singleton _
  | @step t u us hsome hrest ih =>
    rw [List.map_cons, List.nodup_cons]
    refine ⟨fun hagain => ?_, ih⟩
    obtain ⟨v, hv, hstop⟩ := List.mem_map.1 hagain
    have hsame : s.nextSegment? line v = some u := by
      rw [nextSegment?, s.segment_congr line hstop]
      exact hsome
    obtain ⟨vs, hwalk, hle⟩ := hrest.of_mem hv
    obtain rfl := hwalk.unique (.step hsame hrest)
    exact absurd hle (Nat.not_succ_le_self _)

/-- A walk takes fewer steps than there are columns. -/
theorem length_lt_of_walk (h : Walk (s.nextSegment? line) t us) : us.length < UInt32.size := by
  have hstops : ((t :: us).map fun u => u.stop.toNat).Nodup := by
    have hnodup := (nodup_stops h).map (fun _ _ => UInt32.toNat_inj.1)
    rwa [List.map_map] at hnodup
  have hsub : ((t :: us).map fun u => u.stop.toNat) ⊆ List.range UInt32.size := by
    intro n hn
    obtain ⟨u, -, rfl⟩ := List.mem_map.1 hn
    exact List.mem_range.2 u.stop.toNat_lt
  have hle := (List.subperm_of_subset hstops hsub).length_le
  rwa [List.length_map, List.length_range] at hle

/-- **The resolver has the rest of a name where the walk to the right ends**, and
only there: what it gives up on never ends. -/
theorem segments?_eq_some_iff {text : Text} :
    s.segments? line t = some text ↔
      ∃ us, Walk (s.nextSegment? line) t us ∧ text = (t :: us).flatMap (s.segmentText line) := by
  constructor
  · intro h
    obtain ⟨us, hwalk⟩ := exists_walk_of_segmentsWithin h
    have hwithin := segmentsWithin_of_walk hwalk (length_lt_of_walk hwalk)
    exact ⟨us, hwalk, Option.some.inj (h.symm.trans hwithin)⟩
  · rintro ⟨us, hwalk, rfl⟩
    exact segmentsWithin_of_walk hwalk (length_lt_of_walk hwalk)

/-! ## Sources without empty names -/

/-- **The dots and upper-case identifiers of a source are not empty**, wherever it
answers one. -/
def NamesSpan (s : TokenSource) : Prop :=
  ∀ p, (s.tokenAt p).text = ['.'] ∨ (s.tokenAt p).category = .upperIdentifier →
    (s.tokenAt p).start < (s.tokenAt p).stop

/-- Where names are not empty, the columns rise by two: past the dot, and past the
segment after it. -/
theorem NamesSpan.stop_add_two_le (hspan : s.NamesSpan) (h : s.nextSegment? line t = some u) :
    t.stop.toNat + 2 ≤ u.stop.toNat := by
  unfold nextSegment? segment at h
  dsimp only at h
  split_ifs at h with hdot hnext
  obtain ⟨hdotText, hdotStart⟩ := not_or.1 hdot
  have hdotSpan := hspan _ (.inl (not_not.1 hdotText))
  split at h
  · exact absurd h nofun
  · rename_i hupper
    obtain rfl := Option.some.inj h
    have hspan := hspan _ (.inr hupper)
    simp only [UInt32.lt_iff_toNat_lt, Nat.not_lt] at hdotStart hdotSpan hnext hspan
    unfold after at *
    omega
  · exact absurd h nofun

/-- An answer of the walk to the right is one of the resolver. -/
theorem exists_resolve?_eq (h : ∀ line t, ∃ text, s.segments? line t = some text)
    (boundary : ImportBoundary) (selection : Selection) :
    ∃ hint, s.resolve? boundary selection = some hint := by
  have hname : ∀ line t, ∃ hint, s.nameHint? boundary line t = some hint := by
    intro line t
    obtain ⟨text, htext⟩ := h line t
    unfold nameHint?
    split
    · exact ⟨_, rfl⟩
    · rw [upperHint?, htext]
      exact ⟨_, rfl⟩
    · exact ⟨_, rfl⟩
  unfold resolve? tokenHint?
  split_ifs
  · exact hname _ _
  · exact ⟨_, rfl⟩
  · exact hname _ _
  · exact ⟨_, rfl⟩

/-- **Walks end.** To the left every walk does, whatever the source answers, within
half as many steps as there are columns before the token, and the resolver collects
the qualifiers it comes to. To the right a walk ends where the dots and upper-case
identifiers of the source are not empty, within half as many steps as there are
columns after the token, and the resolver collects what it adds; then every selection has an answer. -/
theorem walks_end (s : TokenSource) :
    (∀ line t, ∃ qs, Walk (s.qualifier? line) t qs ∧ 2 * qs.length ≤ t.start.toNat
      ∧ s.qualifiers line t = qs.reverse.flatMap fun q => q.text ++ ['.'])
    ∧ (s.NamesSpan →
        (∀ line t, ∃ us, Walk (s.nextSegment? line) t us
          ∧ t.stop.toNat + 2 * us.length < UInt32.size
          ∧ s.segments? line t = some ((t :: us).flatMap (s.segmentText line)))
        ∧ ∀ boundary selection, ∃ hint, s.resolve? boundary selection = some hint) := by
  refine ⟨fun line t => ?_, fun hspan => ?_⟩
  · obtain ⟨qs, hwalk, hle⟩ := Walk.exists_of_falls (·.start.toNat)
      (fun _ _ h => start_add_two_le h) t
    exact ⟨qs, hwalk, hle, qualifiers_of_walk hwalk⟩
  · have hright : ∀ line t, ∃ us, Walk (s.nextSegment? line) t us
        ∧ t.stop.toNat + 2 * us.length < UInt32.size
        ∧ s.segments? line t = some ((t :: us).flatMap (s.segmentText line)) := by
      intro line t
      -- what falls are the columns that are left
      have hfalls : ∀ t u, s.nextSegment? line t = some u →
          UInt32.size - 1 - u.stop.toNat + 2 ≤ UInt32.size - 1 - t.stop.toNat := by
        intro t u h
        have hrise := hspan.stop_add_two_le h
        have hword : u.stop.toNat < UInt32.size := u.stop.toNat_lt
        omega
      obtain ⟨us, hwalk, hle⟩ := Walk.exists_of_falls _ hfalls t
      have hword : t.stop.toNat < UInt32.size := t.stop.toNat_lt
      exact ⟨us, hwalk, by omega, segments?_eq_some_iff.2 ⟨us, hwalk, rfl⟩⟩
    refine ⟨hright, exists_resolve?_eq fun line t => ?_⟩
    obtain ⟨us, -, -, hsegments⟩ := hright line t
    exact ⟨_, hsegments⟩

/-- A line that fills the columns: an identifier and, up to the last column, a dot
that is met again by the probe past it. -/
theorem walks_end_last_column :
    let last : UInt32 := .ofNat (UInt32.size - 1)
    let s : TokenSource := ⟨fun p => if p.column = last then ⟨.keyword, ['.'], last - 1, last⟩
      else ⟨.upperIdentifier, ['A'], last - 2, last - 1⟩, fun _ => []⟩
    s.NamesSpan ∧ ∃ hint, s.resolve? .empty (.cursor ⟨0, last - 1⟩) = some hint
      ∧ hint = some ['A', '.'] := by
  intro last s
  have hspan : s.NamesSpan := by
    intro p _
    show (if p.column = last then (⟨.keyword, ['.'], last - 1, last⟩ : TokenView)
        else ⟨.upperIdentifier, ['A'], last - 2, last - 1⟩).start
      < (if p.column = last then (⟨.keyword, ['.'], last - 1, last⟩ : TokenView)
        else ⟨.upperIdentifier, ['A'], last - 2, last - 1⟩).stop
    split_ifs <;> decide
  obtain ⟨hint, hhint⟩ := ((walks_end s).2 hspan).2 .empty (.cursor ⟨0, last - 1⟩)
  have hanswer : s.resolve? .empty (.cursor ⟨0, last - 1⟩) = some (some ['A', '.']) := by
    decide +kernel
  exact ⟨hspan, hint, hhint, Option.some.inj (hhint.symm.trans hanswer)⟩

end TokenSource

end EditorCore
