/-
**Plans keep the order of the agents.**

Without routing the batches of a plan are pieces of the list of all indices, one after another.  With
routing they are put together from pieces of the groups: the groups are the partitions in the order
of their first appearance with the indices of each in order, and the batch of a round takes one piece
of every group.  So agents of one partition never overtake each other, whatever the bound, and in a
batch the partitions stand one after another.

Main definitions:

* `AgentSwarm.membersOf` — the indices of a partition, in order;
* `AgentSwarm.At` — where a plan puts an index;
* `AgentSwarm.KeepsOrder` — what is said of a plan.

Main results:

* `AgentSwarm.groupsOf_eq` — **the groups are the partitions in the order of their first appearance,
  each with all its indices**;
* `AgentSwarm.Strategy.pairwise_flatten_plan` — agents of one partition do not overtake each other;
* `AgentSwarm.Strategy.plan_keepsOrder` — **a plan neither loses, repeats nor reorders agents**.
-/

import AgentSwarm.Proofs.Strategy.Coverage
import Mathlib.Data.List.Induction

set_option relaxedAutoImplicit false
set_option autoImplicit false

namespace AgentSwarm

/-! ### The members of a partition -/

/-- The indices of the agents of a partition, in order. -/
def membersOf (partitions : List String) (p : String) : List Nat :=
  (List.range partitions.length).filter fun i => partitions[i]? == some p

variable {partitions : List String} {p q : String} {i j : Nat}

theorem mem_membersOf : i ∈ membersOf partitions p ↔ partitions[i]? = some p := by
  simp only [membersOf, List.mem_filter, List.mem_range, beq_iff_eq, and_iff_right_iff_imp]
  intro h
  exact (List.getElem?_eq_some_iff.1 h).1

theorem pairwise_membersOf (partitions : List String) (p : String) :
    (membersOf partitions p).Pairwise (· < ·) :=
  List.pairwise_lt_range.filter _

/-- An agent that is added at the end is the last of its partition. -/
theorem membersOf_concat (partitions : List String) (p q : String) :
    membersOf (partitions ++ [q]) p =
      membersOf partitions p ++ if q = p then [partitions.length] else [] := by
  have hfront : (List.range partitions.length).filter
      (fun i => (partitions ++ [q])[i]? == some p) = membersOf partitions p := by
    refine List.filter_congr ?_
    intro i hi
    rw [List.getElem?_append_left (List.mem_range.1 hi)]
  rw [membersOf, List.length_append, List.length_singleton, List.range_succ, List.filter_append,
    hfront]
  by_cases hq : q = p <;> simp [hq]

/-! ### Groups -/

/-- Adding an index to groups whose names and members are given. -/
theorem addToGroup_map {names : List String} (hn : names.Nodup) (members : String → List Nat)
    (p : String) (index : Nat) :
    addToGroup p index (names.map fun q => (q, members q)) =
      if p ∈ names then
        names.map fun q => (q, if q = p then members q ++ [index] else members q)
      else (names.map fun q => (q, members q)) ++ [(p, [index])] := by
  induction names with
  | nil => simp [addToGroup]
  | cons q rest ih =>
      obtain ⟨hq, hrest⟩ := List.nodup_cons.1 hn
      by_cases hqp : q = p
      · -- the group is the first one, and the others have other names
        subst hqp
        have hothers : rest.map (fun r => (r, if r = q then members r ++ [index] else members r)) =
            rest.map fun r => (r, members r) := by
          refine List.map_congr_left ?_
          intro r hr
          rw [if_neg]
          rintro rfl
          exact hq hr
        simp [addToGroup, hothers]
      · have hpq : ¬ p = q := fun he => hqp he.symm
        simp only [List.map_cons, addToGroup, hqp, if_false, ih hrest, List.mem_cons, hpq, false_or]
        split <;> simp

/-- A name that is added at the end is a new one or there before. -/
theorem eraseDups_concat (partitions : List String) (p : String) :
    (partitions ++ [p]).eraseDups =
      if p ∈ partitions then partitions.eraseDups else partitions.eraseDups ++ [p] := by
  rw [List.eraseDups_append]
  by_cases hp : p ∈ partitions
  · simp [List.removeAll, hp]
  · simp [List.removeAll, hp, List.eraseDups_cons]

/-- Names stand in the order of their first appearance. -/
theorem pairwise_eraseDups (partitions : List String) :
    partitions.eraseDups.Pairwise fun p q => partitions.idxOf p < partitions.idxOf q := by
  induction partitions using List.reverseRecOn with
  | nil => exact List.Pairwise.nil
  | append_singleton ps p ih =>
      have hold : ∀ q ∈ ps.eraseDups, (ps ++ [p]).idxOf q = ps.idxOf q := fun q hq =>
        List.idxOf_append_of_mem (List.mem_eraseDups.1 hq)
      have hkept : ps.eraseDups.Pairwise fun q r => (ps ++ [p]).idxOf q < (ps ++ [p]).idxOf r := by
        refine ih.imp_of_mem ?_
        intro q r hq hr hlt
        rwa [hold q hq, hold r hr]
      rw [eraseDups_concat]
      by_cases hp : p ∈ ps
      · rw [if_pos hp]
        exact hkept
      · rw [if_neg hp]
        refine List.pairwise_append.2 ⟨hkept, List.pairwise_singleton _ _, ?_⟩
        intro q hq r hr
        obtain rfl := List.mem_singleton.1 hr
        rw [hold q hq, List.idxOf_append_of_notMem hp]
        exact Nat.lt_of_lt_of_le (List.idxOf_lt_length_of_mem (List.mem_eraseDups.1 hq))
          (Nat.le_add_right _ _)

theorem nodup_eraseDups (partitions : List String) : partitions.eraseDups.Nodup := by
  refine (pairwise_eraseDups partitions).imp ?_
  rintro p q hlt rfl
  exact absurd hlt (Nat.lt_irrefl _)

/-- **The groups are the partitions in the order of their first appearance, each with all its
indices in order.** -/
theorem groupsOf_eq (partitions : List String) :
    groupsOf partitions = partitions.eraseDups.map fun p => (p, membersOf partitions p) := by
  induction partitions using List.reverseRecOn with
  | nil => rfl
  | append_singleton ps p ih =>
      have hadd : groupsOf (ps ++ [p]) = addToGroup p ps.length (groupsOf ps) := by
        simp [groupsOf, List.zipIdx_append]
      rw [hadd, ih, addToGroup_map (nodup_eraseDups ps), eraseDups_concat]
      simp only [membersOf_concat, List.mem_eraseDups]
      by_cases hp : p ∈ ps
      · rw [if_pos hp, if_pos hp]
        refine List.map_congr_left ?_
        intro q _
        by_cases hq : p = q
        · simp [hq]
        · have hqp : q ≠ p := fun he => hq he.symm
          simp [hq, hqp]
      · have hnone : membersOf ps p = [] := by
          refine List.eq_nil_iff_forall_not_mem.2 fun i hi => ?_
          exact hp (List.mem_of_getElem? (mem_membersOf.1 hi))
        rw [if_neg hp, if_neg hp, List.map_append, List.map_singleton, if_pos rfl, hnone,
          List.nil_append]
        congr 1
        refine List.map_congr_left ?_
        intro q hq
        have hpq : p ≠ q := fun he => hp (he ▸ List.mem_eraseDups.1 hq)
        rw [if_neg hpq, List.append_nil]

/-! ### Pieces -/

/-- No piece is empty. -/
theorem ne_nil_of_mem_chunks {A : Type} {size : Nat} {xs piece : List A}
    (h : piece ∈ chunks size xs) : piece ≠ [] := by
  fun_induction chunks size xs with
  | case1 => simp at h
  | case2 x rest ih =>
      rcases List.mem_cons.1 h with rfl | h
      · simp
      · exact ih h

/-- The piece of a list whose turn it is in a round, empty when there is none. -/
def pieceAt {A : Type} (size : Nat) (xs : List A) (round : Nat) : List A :=
  ((chunks size xs)[round]?).getD []

section Pieces

variable {A : Type} {size round later : Nat} {xs : List A} {x y : A}

theorem mem_pieceAt :
    x ∈ pieceAt size xs round ↔ ∃ piece, (chunks size xs)[round]? = some piece ∧ x ∈ piece := by
  unfold pieceAt
  cases (chunks size xs)[round]? <;> simp

theorem pieceAt_subset (h : x ∈ pieceAt size xs round) : x ∈ xs := by
  obtain ⟨piece, hpiece, hx⟩ := mem_pieceAt.1 h
  rw [← flatten_chunks size xs]
  exact List.mem_flatten.2 ⟨piece, List.mem_of_getElem? hpiece, hx⟩

/-- There is a piece in each of the first rounds. -/
theorem pieceAt_ne_nil (h : round < (chunks size xs).length) : pieceAt size xs round ≠ [] := by
  rw [pieceAt, List.getElem?_eq_getElem h]
  exact ne_nil_of_mem_chunks (List.getElem_mem h)

/-- A piece keeps the order of the list. -/
theorem pairwise_pieceAt {R : A → A → Prop} (h : xs.Pairwise R) (round : Nat) :
    (pieceAt size xs round).Pairwise R := by
  rw [← flatten_chunks size xs, List.pairwise_flatten] at h
  unfold pieceAt
  cases hpiece : (chunks size xs)[round]? with
  | none => exact List.Pairwise.nil
  | some piece => exact h.1 piece (List.mem_of_getElem? hpiece)

/-- So do the pieces of two rounds. -/
theorem pieceAt_before {R : A → A → Prop} (h : xs.Pairwise R) (hlt : round < later)
    (hx : x ∈ pieceAt size xs round) (hy : y ∈ pieceAt size xs later) : R x y := by
  rw [← flatten_chunks size xs, List.pairwise_flatten] at h
  obtain ⟨first, hfirst, hx⟩ := mem_pieceAt.1 hx
  obtain ⟨second, hsecond, hy⟩ := mem_pieceAt.1 hy
  obtain ⟨hr, rfl⟩ := List.getElem?_eq_some_iff.1 hfirst
  obtain ⟨hl, rfl⟩ := List.getElem?_eq_some_iff.1 hsecond
  exact List.pairwise_iff_getElem.1 h.2 round later hr hl hlt x hx y hy

end Pieces

/-! ### Rounds -/

/-- What is below a running maximum is below one of its values. -/
theorem lt_foldl_max {A : Type} (f : A → Nat) (xs : List A) {n start : Nat}
    (h : n < xs.foldl (fun most x => max most (f x)) start) : n < start ∨ ∃ x ∈ xs, n < f x := by
  induction xs generalizing start with
  | nil => exact .inl h
  | cons x rest ih =>
      rw [List.foldl_cons] at h
      rcases ih h with hlt | ⟨y, hy, hlt⟩
      · have hor : n < start ∨ n < f x := by omega
        exact hor.imp_right fun hlt => ⟨x, by simp, hlt⟩
      · exact .inr ⟨y, List.mem_cons_of_mem x hy, hlt⟩

/-- In each of the rounds some partition has a piece. -/
theorem exists_piece {size round : Nat} (hsize : 0 < size)
    (h : round < roundsFor size (groupsOf partitions)) :
    ∃ p ∈ partitions, round < (chunks size (membersOf partitions p)).length := by
  rcases lt_foldl_max (fun g : String × List Nat => roundsOf size g.2.length) _ h with
    hlt | ⟨group, hg, hlt⟩
  · exact absurd hlt (Nat.not_lt_zero _)
  · rw [groupsOf_eq] at hg
    obtain ⟨p, hp, rfl⟩ := List.mem_map.1 hg
    exact ⟨p, List.mem_eraseDups.1 hp, by rwa [length_chunks hsize]⟩

/-! ### Plans -/

/-- Where a plan puts an index: the number of its batch and its position there. -/
def At (plan : List (List Nat)) (index batch position : Nat) : Prop :=
  ∃ members, plan[batch]? = some members ∧ members[position]? = some index

/-- What holds of the indices of a plan in their order holds of two of them by their positions. -/
theorem At.of_pairwise {R : Nat → Nat → Prop} {plan : List (List Nat)} {b k b' k' : Nat}
    (h : plan.flatten.Pairwise R) (hi : At plan i b k) (hj : At plan j b' k')
    (hlt : b < b' ∨ b = b' ∧ k < k') : R i j := by
  obtain ⟨hwithin, hacross⟩ := List.pairwise_flatten.1 h
  obtain ⟨members, hb, hk⟩ := hi
  obtain ⟨members', hb', hk'⟩ := hj
  rcases hlt with hlt | ⟨rfl, hlt⟩
  · obtain ⟨hlb, rfl⟩ := List.getElem?_eq_some_iff.1 hb
    obtain ⟨hlb', rfl⟩ := List.getElem?_eq_some_iff.1 hb'
    exact List.pairwise_iff_getElem.1 hacross b b' hlb hlb' hlt i (List.mem_of_getElem? hk) j
      (List.mem_of_getElem? hk')
  · obtain rfl : members = members' := Option.some.inj (hb.symm.trans hb')
    obtain ⟨hlk, rfl⟩ := List.getElem?_eq_some_iff.1 hk
    obtain ⟨hlk', rfl⟩ := List.getElem?_eq_some_iff.1 hk'
    exact List.pairwise_iff_getElem.1 (hwithin members (List.mem_of_getElem? hb)) k k' hlk hlk' hlt

/-- The batches of a plan hold every index once and keep the order of the agents. -/
structure KeepsOrder (partitions : List String) (routed : Bool) (plan : List (List Nat)) :
    Prop where
  /-- One after another the batches hold every index exactly once. -/
  once : plan.flatten.Perm (List.range partitions.length)
  nonempty : ∀ batch ∈ plan, batch ≠ []
  /-- Without routing the indices stand in order. -/
  straight : routed = false → plan.flatten = List.range partitions.length
  /-- Of two agents of one partition the earlier one is in an earlier batch, or in the same batch
  and earlier there. -/
  steady : ∀ i j b k b' k' : Nat, i < j → partitions[i]? = partitions[j]? → At plan i b k →
    At plan j b' k' → b < b' ∨ b = b' ∧ k < k'
  /-- With routing what stands in a batch between two agents of one partition is of it too. -/
  contiguous : routed = true → ∀ batch ∈ plan, ∀ (k l m i j h : Nat) (p : String), k < l → l < m →
    batch[k]? = some i → batch[l]? = some j → batch[m]? = some h →
    partitions[i]? = some p → partitions[h]? = some p → partitions[j]? = some p
  /-- With routing the partitions in a batch follow the order of their first appearance. -/
  firsts : routed = true → ∀ batch ∈ plan, ∀ (k l i j : Nat) (p q : String), k < l →
    batch[k]? = some i → batch[l]? = some j → partitions[i]? = some p → partitions[j]? = some q →
    p ≠ q → partitions.idxOf p < partitions.idxOf q

namespace Strategy

variable {s : Strategy} {batch : List Nat}

/-- The most agents of a batch, per partition when batches are routed. -/
def cap (s : Strategy) : Nat := max s.maxRequests 1

theorem cap_pos (s : Strategy) : 0 < s.cap := Nat.lt_of_lt_of_le Nat.one_pos (Nat.le_max_right _ _)

theorem plan_of_not_routed (h : s.routed = false) (partitions : List String) :
    s.plan partitions = chunks s.cap (List.range partitions.length) := by
  simp only [plan, h, Bool.false_eq_true, if_false]
  rfl

/-- **A routed plan**: in every round one piece of each partition. -/
theorem plan_of_routed (h : s.routed = true) (partitions : List String) :
    s.plan partitions = (List.range (roundsFor s.cap (groupsOf partitions))).map fun round =>
      partitions.eraseDups.flatMap fun p => pieceAt s.cap (membersOf partitions p) round := by
  simp only [plan, h, if_true, groupsOf_eq, List.flatMap_map]
  rfl

/-- In a routed batch the partitions stand one after another. -/
theorem pairwise_batch (h : s.routed = true) (hb : batch ∈ s.plan partitions) :
    batch.Pairwise fun i j => ∀ p q, partitions[i]? = some p → partitions[j]? = some q →
      partitions.idxOf p ≤ partitions.idxOf q := by
  rw [plan_of_routed h] at hb
  obtain ⟨round, _, rfl⟩ := List.mem_map.1 hb
  have hof : ∀ {i p r}, i ∈ pieceAt s.cap (membersOf partitions r) round →
      partitions[i]? = some p → r = p := by
    intro i p r hi hp
    exact Option.some.inj ((mem_membersOf.1 (pieceAt_subset hi)).symm.trans hp)
  refine List.pairwise_flatMap.2 ⟨?_, ?_⟩
  · intro r _
    refine List.pairwise_of_forall_mem_list ?_
    intro i hi j hj p q hp hq
    exact Nat.le_of_eq (congrArg partitions.idxOf ((hof hi hp).symm.trans (hof hj hq)))
  · refine (pairwise_eraseDups partitions).imp ?_
    intro r r' hlt i hi j hj p q hp hq
    rw [← hof hi hp, ← hof hj hq]
    exact Nat.le_of_lt hlt

/-- **Agents of one partition do not overtake each other.** -/
theorem pairwise_flatten_plan (s : Strategy) (partitions : List String) :
    (s.plan partitions).flatten.Pairwise fun i j => partitions[i]? = partitions[j]? → i < j := by
  cases hr : s.routed with
  | false =>
      rw [plan_of_not_routed hr, flatten_chunks]
      refine List.pairwise_lt_range.imp ?_
      intro i j hlt _
      exact hlt
  | true =>
      rw [plan_of_routed hr, List.pairwise_flatten]
      refine ⟨?_, ?_⟩
      · intro batch hb
        obtain ⟨round, _, rfl⟩ := List.mem_map.1 hb
        refine List.pairwise_flatMap.2 ⟨?_, ?_⟩
        · intro p _
          refine (pairwise_pieceAt (pairwise_membersOf partitions p) round).imp ?_
          intro i j hlt _
          exact hlt
        · -- agents of two partitions
          refine (nodup_eraseDups partitions).imp ?_
          intro p q hne i hi j hj he
          rw [mem_membersOf.1 (pieceAt_subset hi), mem_membersOf.1 (pieceAt_subset hj)] at he
          exact absurd (Option.some.inj he) hne
      · refine List.pairwise_map.2 (List.pairwise_lt_range.imp ?_)
        intro round later hlt i hi j hj he
        obtain ⟨p, _, hi⟩ := List.mem_flatMap.1 hi
        obtain ⟨q, _, hj⟩ := List.mem_flatMap.1 hj
        have hpq := he
        rw [mem_membersOf.1 (pieceAt_subset hi), mem_membersOf.1 (pieceAt_subset hj)] at hpq
        obtain rfl := Option.some.inj hpq
        exact pieceAt_before (pairwise_membersOf partitions p) hlt hi hj

theorem ne_nil_of_mem_plan (hb : batch ∈ s.plan partitions) : batch ≠ [] := by
  cases hr : s.routed with
  | false =>
      rw [plan_of_not_routed hr] at hb
      exact ne_nil_of_mem_chunks hb
  | true =>
      rw [plan_of_routed hr] at hb
      obtain ⟨round, hround, rfl⟩ := List.mem_map.1 hb
      obtain ⟨p, hp, hlt⟩ := exists_piece s.cap_pos (List.mem_range.1 hround)
      obtain ⟨i, hi⟩ := List.exists_mem_of_ne_nil _ (pieceAt_ne_nil hlt)
      exact List.ne_nil_of_mem (List.mem_flatMap.2 ⟨p, List.mem_eraseDups.2 hp, hi⟩)

/-- **A plan neither loses, repeats nor reorders agents**, whatever the strategy and the
partitions. -/
theorem plan_keepsOrder (s : Strategy) (partitions : List String) :
    KeepsOrder partitions s.routed (s.plan partitions) where
  once := perm_flatten_plan s partitions
  nonempty _ hb := ne_nil_of_mem_plan hb
  straight hr := by rw [plan_of_not_routed hr, flatten_chunks]
  steady := by
    intro i j b k b' k' hlt he hi hj
    have hpairs := pairwise_flatten_plan s partitions
    rcases Nat.lt_trichotomy b b' with hb | rfl | hb
    · exact .inl hb
    · rcases Nat.lt_trichotomy k k' with hk | rfl | hk
      · exact .inr ⟨rfl, hk⟩
      · -- one place holds one index
        obtain ⟨members, hm, hi⟩ := hi
        obtain ⟨members', hm', hj⟩ := hj
        obtain rfl : members = members' := Option.some.inj (hm.symm.trans hm')
        obtain rfl : i = j := Option.some.inj (hi.symm.trans hj)
        exact absurd hlt (Nat.lt_irrefl i)
      · have := At.of_pairwise hpairs hj hi (.inr ⟨rfl, hk⟩) he.symm
        omega
    · have := At.of_pairwise hpairs hj hi (.inl hb) he.symm
      omega
  contiguous := by
    intro hr batch hb k l m i j h p hkl hlm hk hl hm hi hh
    have hpairs := List.pairwise_iff_getElem.1 (pairwise_batch hr hb)
    obtain ⟨hlk, rfl⟩ := List.getElem?_eq_some_iff.1 hk
    obtain ⟨hll, rfl⟩ := List.getElem?_eq_some_iff.1 hl
    obtain ⟨hlm', rfl⟩ := List.getElem?_eq_some_iff.1 hm
    -- the one in between has a partition, whose first appearance is neither later nor earlier
    have hlt : batch[l] < partitions.length := List.mem_range.1
      ((perm_flatten_plan s partitions).subset
        (List.mem_flatten.2 ⟨batch, hb, List.getElem_mem hll⟩))
    have hq := List.getElem?_eq_getElem hlt
    have hle := hpairs k l hlk hll hkl p _ hi hq
    have hge := hpairs l m hll hlm' hlm _ p hq hh
    have hsame := (List.idxOf_inj (List.mem_of_getElem? hi)).1 (Nat.le_antisymm hle hge)
    rw [hq, ← hsame]
  firsts := by
    intro hr batch hb k l i j p q hkl hk hl hi hj hne
    obtain ⟨hlk, rfl⟩ := List.getElem?_eq_some_iff.1 hk
    obtain ⟨hll, rfl⟩ := List.getElem?_eq_some_iff.1 hl
    have hle := List.pairwise_iff_getElem.1 (pairwise_batch hr hb) k l hlk hll hkl p q hi hj
    refine Nat.lt_of_le_of_ne hle fun he => ?_
    exact hne ((List.idxOf_inj (List.mem_of_getElem? hi)).1 he)

/-- Two partitions of three and two agents, of each at most two in a batch. -/
example : ({ crossPartition with maxRequests := 2 } : Strategy).plan ["a", "b", "a", "b", "a"] =
    [[0, 2, 1, 3], [4]] := by decide +kernel

end Strategy

end AgentSwarm
