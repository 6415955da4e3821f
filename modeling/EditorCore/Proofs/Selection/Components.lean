import EditorCore.Proofs.Selection.Normal

/-!
# What the normal form joins

Selections that have a position in common, be it only an end, belong together,
and so do selections that a chain of such ones leads between (`Selection.Linked`).
The normal form has one selection for each of these components, neither more nor
fewer: every selection lies within exactly one of them, and those that lie within
it are all that are linked to one another (`Selection.normalize_components`).

Merging takes the selections in the order of their starts, so it is enough to
compare each with the one that stands for all before it. What that one keeps of
the selections it stands for is `Selection.Cluster`: its bounds, the positions
between them, and the direction. The direction is that of the first selection
that has one, which is why the order among equal starts matters, and with it that
the sort is stable (`Selection.StableSort`).
-/

namespace EditorCore

namespace Selection

/-! ## Components -/

/-- A position lies on a selection, its ends included. -/
def Holds (s : Selection) (p : Position) : Prop := s.start ≤ p ∧ p ≤ s.stop

/-- A selection lies within another. -/
def Within (s u : Selection) : Prop := u.start ≤ s.start ∧ s.stop ≤ u.stop

instance (s u : Selection) : Decidable (s.Within u) := inferInstanceAs (Decidable (_ ∧ _))

/-- **Selections meet** when they overlap or touch. -/
def Meets (s t : Selection) : Prop := s.start ≤ t.stop ∧ t.start ≤ s.stop

/-- **Linked selections** of a list: a chain leads from one to the other where
each meets the next. -/
def Linked (ss : List Selection) : Selection → Selection → Prop :=
  Relation.ReflTransGen fun s t => s ∈ ss ∧ t ∈ ss ∧ s.Meets t

/-- **A stable sort by bounds**: the same selections in the order of their starts
and then of their ends, those with equal bounds in the order they came in. -/
structure StableSort (ss sorted : List Selection) : Prop where
  perm : sorted.Perm ss
  ordered : sorted.Pairwise fun s t => s.start < t.start ∨ s.start = t.start ∧ s.stop ≤ t.stop
  stable : ∀ start stop, sorted.filter (fun s => s.start = start ∧ s.stop = stop)
    = ss.filter fun s => s.start = start ∧ s.stop = stop

/-- **A selection stands for others**: it spans what they span together, and runs
in the direction of the first one that has a direction. -/
structure Cluster (u : Selection) (members : List Selection) : Prop where
  /-- It starts where the first of them starts. -/
  start_mem : ∃ s ∈ members, s.start = u.start
  /-- It stops where the last of them stops. -/
  stop_mem : ∃ s ∈ members, s.stop = u.stop
  /-- They all lie within it. -/
  within : ∀ s ∈ members, s.Within u
  /-- They leave no position of it out. -/
  covers : ∀ p, u.Holds p → ∃ s ∈ members, s.Holds p
  /-- It is a cursor when all of them are. -/
  isEmpty_iff : u.isEmpty ↔ ∀ s ∈ members, s.isEmpty
  /-- It runs in the direction of the first that is no cursor. -/
  direction : ∀ s ∈ members.find? (!·.isEmpty), u.isForward = s.isForward
  /-- They are linked among themselves. -/
  linked : ∀ s ∈ members, ∀ t ∈ members, Linked members s t

variable {s t u v : Selection} {ss ts : List Selection}

theorem within_iff_rank : s.Within u ↔ u.start.rank ≤ s.start.rank ∧ s.stop.rank ≤ u.stop.rank := by
  rw [Within, Position.le_iff_rank_le, Position.le_iff_rank_le]

theorem meets_iff_rank : s.Meets t ↔ s.start.rank ≤ t.stop.rank ∧ t.start.rank ≤ s.stop.rank := by
  rw [Meets, Position.le_iff_rank_le, Position.le_iff_rank_le]

theorem holds_iff_rank {p : Position} :
    s.Holds p ↔ s.start.rank ≤ p.rank ∧ p.rank ≤ s.stop.rank := by
  rw [Holds, Position.le_iff_rank_le, Position.le_iff_rank_le]

theorem Meets.symm (h : s.Meets t) : t.Meets s := And.symm h

/-- Selections linked in a list are linked in a larger one. -/
theorem Linked.mono (h : Linked ss s t) (hsub : ∀ u ∈ ss, u ∈ ts) : Linked ts s t :=
  Relation.ReflTransGen.mono (fun _ _ hstep => ⟨hsub _ hstep.1, hsub _ hstep.2.1, hstep.2.2⟩) _ _ h

/-! ## Directions -/

/-- A cursor counts as forward. -/
theorem isForward_of_isEmpty (h : s.isEmpty) : s.isForward := by
  rw [isEmpty, decide_eq_true_eq] at h
  rw [isForward, decide_eq_true_eq, Position.le_iff_rank_le, h]

/-- A selection that runs backward is no cursor. -/
theorem not_isEmpty_of_backward (h : s.isForward = false) : ¬ s.isEmpty := by
  intro hempty
  rw [isForward_of_isEmpty hempty] at h
  exact absurd h nofun

/-- A selection between two positions that are not the same keeps the direction;
a cursor has none to keep. -/
theorem isForward_withBounds {start stop : Position} (hlt : start.rank ≤ stop.rank)
    (h : s.isForward = false → start.rank < stop.rank) :
    (s.withBounds start stop).isForward = s.isForward := by
  unfold withBounds
  cases hs : s.isForward with
  | true =>
    rw [if_pos rfl, isForward, decide_eq_true_eq, Position.le_iff_rank_le]
    exact hlt
  | false =>
    rw [if_neg Bool.false_ne_true, isForward, decide_eq_false_iff_not, Position.le_iff_rank_le]
    exact Nat.not_le.2 (h hs)

/-- The bounds of a backward selection differ. -/
theorem start_lt_stop_of_backward (h : s.isForward = false) : s.start.rank < s.stop.rank := by
  have hle := s.start_le_stop
  have hne := not_isEmpty_of_backward h
  rw [isEmpty_iff_rank_eq] at hne
  omega

/-- **A selection that absorbs another keeps its direction**, or takes the
other's when it is a cursor. -/
theorem isForward_absorb (h : s.start.rank ≤ t.start.rank) :
    (absorb s t).isForward = if s.isEmpty then t.isForward else s.isForward := by
  have hs := s.start_le_stop
  have hbounds : s.start.rank ≤ (max s.stop t.stop).rank := by
    rw [Position.rank_max]
    omega
  rw [absorb, isForward_withBounds hbounds, apply_ite isForward]
  intro hback
  rw [Position.rank_max]
  split_ifs at hback with hempty
  · have hlt := start_lt_stop_of_backward hback
    omega
  · have hlt := start_lt_stop_of_backward hback
    omega

/-! ## Merging -/

theorem Cluster.singleton (s : Selection) : Cluster s [s] where
  start_mem := ⟨s, List.mem_singleton_self s, rfl⟩
  stop_mem := ⟨s, List.mem_singleton_self s, rfl⟩
  within t ht := by
    rw [List.mem_singleton.1 ht, within_iff_rank]
    exact ⟨Nat.le_refl _, Nat.le_refl _⟩
  covers p hp := ⟨s, List.mem_singleton_self s, hp⟩
  isEmpty_iff := by simp
  direction t ht := by
    rw [List.mem_singleton.1 (List.mem_of_find?_eq_some ht)]
  linked t ht u hu := by
    rw [List.mem_singleton.1 ht, List.mem_singleton.1 hu]
    exact Relation.ReflTransGen.refl

/-- **Absorbing one more selection**, which starts after all the others and
meets what stands for them. -/
theorem Cluster.absorb (h : Cluster s ss) (hstart : ∀ u ∈ ss, u.start.rank ≤ t.start.rank)
    (hmeets : t.start.rank ≤ s.stop.rank) : Cluster (absorb s t) (ss ++ [t]) := by
  obtain ⟨first, hfirst, hfirsteq⟩ := h.start_mem
  obtain ⟨last, hlast, hlasteq⟩ := h.stop_mem
  obtain ⟨hrstart, hrstop⟩ := rank_absorb (s := s) (t := t)
  have hst : s.start.rank ≤ t.start.rank := hfirsteq ▸ hstart first hfirst
  have hs := s.start_le_stop
  have ht := t.start_le_stop
  refine ⟨⟨first, by simp [hfirst], ?_⟩, ?_, ?_, ?_, ?_, ?_, ?_⟩
  · rw [← Position.rank_inj, hfirsteq, hrstart]
  · rcases Nat.le_total s.stop.rank t.stop.rank with hle | hle
    · exact ⟨t, by simp, by rw [← Position.rank_inj, hrstop, Nat.max_eq_right hle]⟩
    · refine ⟨last, by simp [hlast], ?_⟩
      rw [← Position.rank_inj, hrstop, Nat.max_eq_left hle, hlasteq]
  · intro u hu
    rw [within_iff_rank, hrstart, hrstop]
    rcases List.mem_append.1 hu with hu | hu
    · have hwithin := within_iff_rank.1 (h.within u hu)
      omega
    · rw [List.mem_singleton.1 hu]
      omega
  · intro p hp
    rw [holds_iff_rank, hrstart, hrstop] at hp
    -- up to where `s` stops the others hold the position, and `t` from there on
    rcases Nat.lt_or_ge s.stop.rank p.rank with hlt | hle
    · exact ⟨t, by simp, holds_iff_rank.2 ⟨by omega, by omega⟩⟩
    · obtain ⟨u, hu, hup⟩ := h.covers p (holds_iff_rank.2 ⟨hp.1, hle⟩)
      exact ⟨u, List.mem_append_left _ hu, hup⟩
  · rw [isEmpty_iff_rank_eq, hrstart, hrstop, List.forall_mem_append, ← h.isEmpty_iff,
      List.forall_mem_singleton, isEmpty_iff_rank_eq, isEmpty_iff_rank_eq]
    omega
  · intro u hu
    rw [isForward_absorb hst]
    rw [List.find?_append] at hu
    split_ifs with hempty
    · have hnone : ss.find? (!·.isEmpty) = none := by
        rw [List.find?_eq_none]
        intro v hv
        simp [h.isEmpty_iff.1 hempty v hv]
      rw [hnone, Option.none_or] at hu
      rw [List.mem_singleton.1 (List.mem_of_find?_eq_some hu)]
    · cases hfind : ss.find? (!·.isEmpty) with
      | none =>
        refine absurd (h.isEmpty_iff.2 fun v hv => ?_) hempty
        simpa using List.find?_eq_none.1 hfind v hv
      | some v =>
        rw [hfind, Option.some_or] at hu
        exact h.direction u (hfind.trans hu)
  · -- `t` meets the member that stops last
    have hstep : last.Meets t := by
      have hlt := hstart last hlast
      rw [meets_iff_rank]
      rw [← Position.rank_inj] at hlasteq
      omega
    have hlink : Linked (ss ++ [t]) last t :=
      .single ⟨List.mem_append_left _ hlast, by simp, hstep⟩
    have hlink' : Linked (ss ++ [t]) t last :=
      .single ⟨by simp, List.mem_append_left _ hlast, hstep.symm⟩
    have hold : ∀ u ∈ ss, ∀ v ∈ ss, Linked (ss ++ [t]) u v := fun u hu v hv =>
      (h.linked u hu v hv).mono fun w hw => List.mem_append_left _ hw
    intro u hu v hv
    rcases List.mem_append.1 hu with hu | hu <;> rcases List.mem_append.1 hv with hv | hv
    · exact hold u hu v hv
    · rw [List.mem_singleton.1 hv]
      exact (hold u hu last hlast).trans hlink
    · rw [List.mem_singleton.1 hu]
      exact hlink'.trans (hold last hlast v hv)
    · rw [List.mem_singleton.1 hu, List.mem_singleton.1 hv]
      exact Relation.ReflTransGen.refl

/-- **What a merged selection stands for** are the selections within it, in
their order. The first one stands for `ss` already. -/
theorem cluster_mergeInto (h : Cluster s ss)
    (hsorted : (ss ++ ts).Pairwise fun s t => s.start.rank ≤ t.start.rank)
    (hu : u ∈ mergeInto s ts) : Cluster u ((ss ++ ts).filter fun s => s.Within u) := by
  induction ts generalizing s ss with
  | nil =>
    rw [mergeInto, List.mem_singleton] at hu
    subst hu
    rw [List.append_nil, List.filter_eq_self.2 fun v hv => decide_eq_true (h.within v hv)]
    exact h
  | cons t ts ih =>
    obtain ⟨-, hrest, hcross⟩ := List.pairwise_append.1 hsorted
    have hstart : ∀ v ∈ ss, v.start.rank ≤ t.start.rank := fun v hv =>
      hcross v hv t List.mem_cons_self
    rw [mergeInto] at hu
    split_ifs at hu with hgap
    · rw [Position.lt_iff_rank_lt] at hgap
      rw [List.filter_append]
      rcases List.mem_cons.1 hu with rfl | hu
      · -- all others start past its end
        have hnone : (t :: ts).filter (fun v => v.Within u) = [] := by
          rw [List.filter_eq_nil_iff]
          intro v hv
          have hle : t.start.rank ≤ v.start.rank := by
            rcases List.mem_cons.1 hv with rfl | hv
            · exact Nat.le_refl _
            · exact (List.pairwise_cons.1 hrest).1 v hv
          have hv := v.start_le_stop
          rw [decide_eq_true_eq, within_iff_rank]
          omega
        rw [hnone, List.append_nil,
          List.filter_eq_self.2 fun v hv => decide_eq_true (h.within v hv)]
        exact h
      · -- it starts past the end of all that `s` stands for
        have hnone : ss.filter (fun v => v.Within u) = [] := by
          rw [List.filter_eq_nil_iff]
          intro v hv
          have hle := start_le_of_mem_mergeInto hrest hu
          have hwithin := within_iff_rank.1 (h.within v hv)
          have hv := v.start_le_stop
          rw [decide_eq_true_eq, within_iff_rank]
          omega
        rw [hnone, List.nil_append]
        exact ih (Cluster.singleton t) hrest hu
    · rw [Position.lt_iff_rank_lt, Nat.not_lt] at hgap
      rw [List.append_cons] at hsorted ⊢
      exact ih (h.absorb hstart hgap) hsorted hu

/-- What lies within either of two selections lies within the one that stands
for both. -/
theorem within_absorb (hst : s.start.rank ≤ t.start.rank) (h : v.Within s ∨ v.Within t) :
    v.Within (absorb s t) := by
  rw [within_iff_rank, within_iff_rank] at h
  rw [within_iff_rank, rank_absorb.1, rank_absorb.2]
  omega

theorem within_of_eq (h : s = u) : s.Within u := by
  rw [h, within_iff_rank]
  exact ⟨Nat.le_refl _, Nat.le_refl _⟩

/-- Every selection lies within one of those it is merged into. -/
theorem exists_within_mergeInto
    (hsorted : (s :: ts).Pairwise fun s t => s.start.rank ≤ t.start.rank)
    (hv : v.Within s ∨ v ∈ ts) : ∃ u ∈ mergeInto s ts, v.Within u := by
  induction ts generalizing s with
  | nil =>
    rw [mergeInto]
    exact ⟨s, List.mem_singleton_self s, hv.resolve_right List.not_mem_nil⟩
  | cons t ts ih =>
    have hst := (List.pairwise_cons.1 hsorted).1 t List.mem_cons_self
    have ht : v ∈ t :: ts → v.Within t ∨ v ∈ ts := fun hmem =>
      (List.mem_cons.1 hmem).imp_left within_of_eq
    rw [mergeInto]
    split_ifs with hgap
    · rcases hv with hvs | hmem
      · exact ⟨s, List.mem_cons_self, hvs⟩
      · obtain ⟨u, hu, hvu⟩ := ih (List.pairwise_cons.1 hsorted).2 (ht hmem)
        exact ⟨u, List.mem_cons_of_mem s hu, hvu⟩
    · refine ih (pairwise_absorb hsorted) ?_
      rcases hv with hvs | hmem
      · exact .inl (within_absorb hst (.inl hvs))
      · exact (ht hmem).imp_left fun hvt => within_absorb hst (.inr hvt)

/-! ## Sorting -/

/-- **Sorting by bounds is stable.** -/
theorem stableSort_sortByBounds (ss : List Selection) : StableSort ss (sortByBounds ss) := by
  have hperm : (sortByBounds ss).Perm ss := List.mergeSort_perm ss _
  refine ⟨hperm, ?_, fun start stop => ?_⟩
  · exact (List.pairwise_mergeSort bounds_trans bounds_total ss).imp of_decide_eq_true
  · -- selections with the same bounds are in order, so they stay a sublist
    refine (List.Sublist.eq_of_length ?_ (hperm.filter _).length_eq.symm).symm
    have hequal : (ss.filter fun s => s.start = start ∧ s.stop = stop).Pairwise
        fun s t => decide (s.start < t.start ∨ s.start = t.start ∧ s.stop ≤ t.stop) = true := by
      refine List.pairwise_of_forall_mem_list fun s hs t ht => ?_
      obtain ⟨hstart, hstop⟩ := of_decide_eq_true (List.mem_filter.1 hs).2
      obtain ⟨hstart', hstop'⟩ := of_decide_eq_true (List.mem_filter.1 ht).2
      rw [decide_eq_true_eq, hstart, hstart', hstop, hstop']
      exact .inr ⟨rfl, Position.le_iff_rank_le.2 (Nat.le_refl _)⟩
    have hsub := List.sublist_mergeSort bounds_trans bounds_total hequal List.filter_sublist
    have hfilter := hsub.filter fun s => decide (s.start = start ∧ s.stop = stop)
    rwa [List.filter_filter, List.filter_congr fun s _ => Bool.and_self _] at hfilter

/-! ## The normal form -/

theorem exists_within_normalize (hs : s ∈ ss) : ∃ u ∈ normalize ss, s.Within u := by
  have hmem : s ∈ sortByBounds ss := List.mem_mergeSort.2 hs
  have hsorted := pairwise_sortByBounds ss
  unfold normalize
  split
  · rename_i hnil
    rw [hnil] at hmem
    exact absurd hmem List.not_mem_nil
  · rename_i first rest hcons
    rw [hcons] at hmem hsorted
    exact exists_within_mergeInto hsorted
      ((List.mem_cons.1 hmem).imp_left within_of_eq)

theorem cluster_normalize (hu : u ∈ normalize ss) :
    Cluster u ((sortByBounds ss).filter fun s => s.Within u) := by
  have hsorted := pairwise_sortByBounds ss
  unfold normalize at hu
  split at hu
  · exact absurd hu List.not_mem_nil
  · rename_i first rest hcons
    rw [hcons] at hsorted ⊢
    exact cluster_mergeInto (Cluster.singleton first) hsorted hu

/-- Between two selections in normal form there is a gap, whichever comes
first. -/
theorem gap_of_ne (hu : u ∈ normalize ss) (hv : v ∈ normalize ss) (hne : u ≠ v) :
    u.stop.rank < v.start.rank ∨ v.stop.rank < u.start.rank := by
  let R : Selection → Selection → Prop := fun u v =>
    u.stop.rank < v.start.rank ∨ v.stop.rank < u.start.rank
  have hsymm : Std.Symm R := ⟨fun _ _ => Or.symm⟩
  exact List.Pairwise.forall (R := R) ((pairwise_normalize ss).imp Or.inl) hu hv hne

/-- A selection lies within one of the normal form at most. -/
theorem eq_of_within (hu : u ∈ normalize ss) (hv : v ∈ normalize ss) (hsu : s.Within u)
    (hsv : s.Within v) : u = v := by
  by_contra hne
  have hgap := gap_of_ne hu hv hne
  have hs := s.start_le_stop
  rw [within_iff_rank] at hsu hsv
  omega

/-- **Linked selections lie within the same one**: those that meet do, for
between two there is a gap. -/
theorem within_of_linked (hu : u ∈ normalize ss) (hs : s.Within u) (h : Linked ss s t) :
    t.Within u := by
  induction h with
  | refl => exact hs
  | tail _ hstep ih =>
    obtain ⟨-, ht, hmeets⟩ := hstep
    obtain ⟨v, hv, htv⟩ := exists_within_normalize ht
    suffices huv : u = v from huv ▸ htv
    by_contra hne
    have hgap := gap_of_ne hu hv hne
    rw [within_iff_rank] at ih htv
    rw [meets_iff_rank] at hmeets
    omega

/-- **The selections within one of the normal form are a component.** -/
theorem mem_filter_within_iff (hu : u ∈ normalize ss) (hs : s ∈ ss) (hsu : s.Within u) :
    t ∈ (sortByBounds ss).filter (fun s => s.Within u) ↔ t ∈ ss ∧ Linked ss s t := by
  have hmem : ∀ {v}, v ∈ (sortByBounds ss).filter (fun s => s.Within u) ↔ v ∈ ss ∧ v.Within u := by
    intro v
    rw [List.mem_filter, decide_eq_true_eq]
    exact and_congr_left fun _ => List.mem_mergeSort
  constructor
  · intro ht
    refine ⟨(hmem.1 ht).1, Linked.mono ?_ fun v hv => (hmem.1 hv).1⟩
    exact (cluster_normalize hu).linked s (hmem.2 ⟨hs, hsu⟩) t ht
  · exact fun ht => hmem.2 ⟨ht.1, within_of_linked hu hsu ht.2⟩

/-- The bounds of a selection. -/
def bounds (s : Selection) : Position × Position := (s.start, s.stop)

/-- A selection stands for as much as another when both stand for the same
selections. -/
theorem Cluster.bounds_eq (hu : Cluster u ss) (hv : Cluster v ts) (h : ∀ s, s ∈ ss ↔ s ∈ ts) :
    u.bounds = v.bounds := by
  obtain ⟨first, hfirst, hfirsteq⟩ := hu.start_mem
  obtain ⟨first', hfirst', hfirsteq'⟩ := hv.start_mem
  obtain ⟨last, hlast, hlasteq⟩ := hu.stop_mem
  obtain ⟨last', hlast', hlasteq'⟩ := hv.stop_mem
  have h1 := within_iff_rank.1 (hv.within first ((h _).1 hfirst))
  have h2 := within_iff_rank.1 (hu.within first' ((h _).2 hfirst'))
  have h3 := within_iff_rank.1 (hv.within last ((h _).1 hlast))
  have h4 := within_iff_rank.1 (hu.within last' ((h _).2 hlast'))
  rw [hfirsteq] at h1
  rw [hfirsteq'] at h2
  rw [hlasteq] at h3
  rw [hlasteq'] at h4
  rw [bounds, bounds, Prod.mk.injEq, ← Position.rank_inj, ← Position.rank_inj]
  exact ⟨Nat.le_antisymm h2.1 h1.1, Nat.le_antisymm h3.2 h4.2⟩

/-- The same selections in another order, or repeated, have the same bounds in
normal form. -/
theorem mem_bounds_normalize (h : ∀ s, s ∈ ts ↔ s ∈ ss) {b : Position × Position}
    (hb : b ∈ (normalize ss).map bounds) : b ∈ (normalize ts).map bounds := by
  obtain ⟨u, hu, rfl⟩ := List.mem_map.1 hb
  obtain ⟨s, hs, -⟩ := (cluster_normalize hu).start_mem
  have hsu := of_decide_eq_true (List.mem_filter.1 hs).2
  replace hs := List.mem_mergeSort.1 (List.mem_filter.1 hs).1
  obtain ⟨v, hv, hsv⟩ := exists_within_normalize ((h s).2 hs)
  have hlinked : Linked ts = Linked ss := by
    unfold Linked
    simp only [h]
  refine List.mem_map.2 ⟨v, hv, ?_⟩
  refine (cluster_normalize hv).bounds_eq (cluster_normalize hu) fun t => ?_
  rw [mem_filter_within_iff hv ((h s).2 hs) hsv, mem_filter_within_iff hu hs hsu, h, hlinked]

theorem bounds_normalize_congr (h : ∀ s, s ∈ ts ↔ s ∈ ss) :
    (normalize ts).map bounds = (normalize ss).map bounds := by
  let R : Position × Position → Position × Position → Prop := fun b c =>
    b.1.rank < c.1.rank
  have hanti : Std.Antisymm R := ⟨fun b c hbc hcb => absurd hbc (Nat.lt_asymm hcb)⟩
  have hirrefl : Std.Irrefl R := ⟨fun b => Nat.lt_irrefl b.1.rank⟩
  have hsorted : ∀ us, ((normalize us).map bounds).Pairwise R := fun us => by
    rw [List.pairwise_map]
    exact (pairwise_normalize us).imp fun {s t} hst => s.start_le_stop.trans_lt hst
  exact (hsorted ts).eq_of_mem_iff (hsorted ss) fun b =>
    ⟨mem_bounds_normalize fun s => (h s).symm, mem_bounds_normalize h⟩

/-- **The normal form has one selection for each component.** Its selections
are in order with gaps between them, each selection of the list lies within
exactly one of them, and those that lie within it are a component: all that are
linked to one another. It spans just what they span, in the direction of the
first of them that is no cursor, in stable order. So the normal form of a normal
form is the same, and its bounds depend on neither order nor repetition. -/
theorem normalize_components (ss : List Selection) :
    (normalize ss).Pairwise (fun u v => u.stop < v.start)
    ∧ (∀ s ∈ ss, ∃! u, u ∈ normalize ss ∧ s.Within u)
    ∧ (∃ sorted, StableSort ss sorted ∧ ∀ u ∈ normalize ss,
        Cluster u (sorted.filter fun s => s.Within u)
        ∧ ∀ s ∈ ss, s.Within u → ∀ t, t ∈ sorted.filter (fun s => s.Within u)
            ↔ t ∈ ss ∧ Linked ss s t)
    ∧ normalize (normalize ss) = normalize ss
    ∧ ∀ ts, (∀ s, s ∈ ts ↔ s ∈ ss) → (normalize ts).map bounds = (normalize ss).map bounds := by
  refine ⟨?_, fun s hs => ?_, ⟨sortByBounds ss, stableSort_sortByBounds ss, fun u hu => ?_⟩,
    normalize_of_pairwise (pairwise_normalize ss), fun ts h => bounds_normalize_congr h⟩
  · exact (pairwise_normalize ss).imp Position.lt_iff_rank_lt.2
  · obtain ⟨u, hu, hsu⟩ := exists_within_normalize hs
    exact ⟨u, ⟨hu, hsu⟩, fun v hv => eq_of_within hv.1 hu hv.2 hsu⟩
  · exact ⟨cluster_normalize hu, fun s hs hsu t => mem_filter_within_iff hu hs hsu⟩

end Selection

end EditorCore
