/-
**Plans are as short as they may be.**

A batch fits a strategy when it holds no more agents than the strategy lets through, with routing of
each partition.  The batches of a plan fit, and there are no more of them than the largest partition
needs.  Fewer batches cannot do: every batch that fits takes only so many agents, and each agent
must be in some batch.

Main definitions:

* `AgentSwarm.Strategy.Fits` — a batch keeps to the bound of a strategy.

Main results:

* `AgentSwarm.Strategy.fits_of_mem_plan` — the batches of a plan fit;
* `AgentSwarm.Strategy.length_plan_of_not_routed`, `AgentSwarm.Strategy.length_plan_of_routed` — the
  number of batches;
* `AgentSwarm.countP_range_le` — what batches hold that hold all indices;
* `AgentSwarm.Strategy.plan_shortest` — **a plan keeps to the bound, and no shorter one does**.
-/

import AgentSwarm.Proofs.Strategy.Order
import Mathlib.Algebra.Order.BigOperators.Group.List
import Mathlib.Algebra.Order.Floor.Div
import Mathlib.Data.Finset.Lattice.Fold
import Mathlib.Data.Finset.Dedup
import Mathlib.Order.Lattice.Nat

set_option relaxedAutoImplicit false
set_option autoImplicit false

namespace AgentSwarm

variable {partitions : List String} {p : String}

/-! ### The size of a partition -/

theorem length_membersOf (partitions : List String) (p : String) :
    (membersOf partitions p).length = partitions.count p := by
  induction partitions using List.reverseRecOn with
  | nil => rfl
  | append_singleton ps q ih =>
      rw [membersOf_concat, List.length_append, ih, List.count_append]
      by_cases hq : q = p <;> simp [hq]

/-- The number of pieces of a list, as a quotient that is rounded up. -/
theorem length_chunks_eq_ceilDiv {A : Type} {size : Nat} (hsize : 0 < size) (xs : List A) :
    (chunks size xs).length = xs.length ⌈/⌉ size := by
  rw [length_chunks hsize, roundsOf, Nat.ceilDiv_eq_add_pred_div]

/-- **The rounds of a plan are those of the largest partition.** -/
theorem roundsFor_groupsOf {size : Nat} (hsize : 0 < size) (partitions : List String) :
    roundsFor size (groupsOf partitions) =
      partitions.toFinset.sup fun p => partitions.count p ⌈/⌉ size := by
  have hpieces : ∀ p, (chunks size (membersOf partitions p)).length =
      partitions.count p ⌈/⌉ size := fun p => by
    rw [length_chunks_eq_ceilDiv hsize, length_membersOf]
  refine Nat.le_antisymm (Nat.le_of_not_lt fun hlt => ?_) (Finset.sup_le fun p hp => ?_)
  · -- a partition with a piece in the round after the last one would be larger than the largest
    obtain ⟨p, hp, hpiece⟩ := exists_piece hsize hlt
    rw [hpieces] at hpiece
    exact absurd hpiece (Nat.not_lt.2 (Finset.le_sup (f := fun p => partitions.count p ⌈/⌉ size)
      (List.mem_toFinset.2 hp)))
  · have hgroup : (p, membersOf partitions p) ∈ groupsOf partitions := by
      rw [groupsOf_eq]
      exact List.mem_map.2 ⟨p, List.mem_eraseDups.2 (List.mem_toFinset.1 hp), rfl⟩
    rw [← hpieces]
    exact length_chunks_le_rounds hsize hgroup

/-- The pieces of a list are those whose turn it is in its rounds. -/
theorem map_pieceAt_range {A : Type} (size : Nat) (xs : List A) :
    (List.range (chunks size xs).length).map (pieceAt size xs) = chunks size xs := by
  refine List.ext_getElem (by simp) ?_
  intro round h₁ h₂
  simp [pieceAt, List.getElem?_eq_getElem h₂]

/-! ### What batches hold -/

/-- **Batches that hold all indices** hold as many of a kind as there are, and none more than it may. -/
theorem countP_range_le {n most : Nat} {batches : List (List Nat)} (kind : Nat → Bool)
    (hcover : ∀ i < n, ∃ batch ∈ batches, i ∈ batch)
    (hmost : ∀ batch ∈ batches, batch.countP kind ≤ most) :
    (List.range n).countP kind ≤ most * batches.length := by
  have hsub : List.range n ⊆ batches.flatten := fun i hi =>
    List.mem_flatten.2 (hcover i (List.mem_range.1 hi))
  have hle := (List.nodup_range.subperm hsub).countP_le kind
  have hsum := List.sum_le_card_nsmul (batches.map (List.countP kind)) most (by simpa using hmost)
  rw [List.length_map, smul_eq_mul] at hsum
  rw [List.countP_flatten] at hle
  rw [Nat.mul_comm]
  exact hle.trans hsum

namespace Strategy

variable {s : Strategy} {batch : List Nat}

/-- A batch keeps to the bound of a strategy: it has no more agents, with routing of no partition. -/
structure Fits (s : Strategy) (partitions : List String) (batch : List Nat) : Prop where
  total : s.routed = false → batch.length ≤ max s.maxRequests 1
  partition : s.routed = true → ∀ p,
    batch.countP (fun i => partitions[i]? == some p) ≤ max s.maxRequests 1

/-- When the others contribute nothing, what one of different names contributes is all there is. -/
theorem flatMap_ite_eq {A : Type} {names : List String} (hn : names.Nodup) (p : String)
    (f : String → List A) :
    names.flatMap (fun q => if q = p then f q else []) = if p ∈ names then f p else [] := by
  induction names with
  | nil => rfl
  | cons q rest ih =>
      obtain ⟨hq, hrest⟩ := List.nodup_cons.1 hn
      rw [List.flatMap_cons, ih hrest]
      by_cases hqp : q = p
      · subst hqp
        simp [hq]
      · have hpq : p ≠ q := fun he => hqp he.symm
        simp [hqp, hpq]

/-- The agents of a partition in the batch of a round are its piece. -/
theorem filter_round (partitions : List String) (p : String) (size round : Nat) :
    (partitions.eraseDups.flatMap fun q => pieceAt size (membersOf partitions q) round).filter
      (fun i => partitions[i]? == some p) = pieceAt size (membersOf partitions p) round := by
  have hof : ∀ {i q}, i ∈ pieceAt size (membersOf partitions q) round → partitions[i]? = some q :=
    fun hi => mem_membersOf.1 (pieceAt_subset hi)
  have hpieces : ∀ q, (pieceAt size (membersOf partitions q) round).filter
      (fun i => partitions[i]? == some p) =
        if q = p then pieceAt size (membersOf partitions q) round else [] := by
    intro q
    by_cases hq : q = p
    · rw [if_pos hq, List.filter_eq_self]
      intro i hi
      simp [hof hi, hq]
    · rw [if_neg hq, List.filter_eq_nil_iff]
      intro i hi
      simp [hof hi, hq]
  rw [List.filter_flatMap]
  simp only [hpieces]
  rw [flatMap_ite_eq (nodup_eraseDups partitions)]
  split
  · rfl
  next hp =>
      -- an absent partition has no members
      refine (List.eq_nil_iff_forall_not_mem.2 fun i hi => ?_).symm
      exact hp (List.mem_eraseDups.2 (List.mem_of_getElem? (hof hi)))

theorem length_pieceAt_le {A : Type} (size : Nat) (xs : List A) (round : Nat) :
    (pieceAt size xs round).length ≤ max size 1 := by
  unfold pieceAt
  cases hpiece : (chunks size xs)[round]? with
  | none => exact Nat.zero_le _
  | some piece => exact length_le_of_mem_chunks (List.mem_of_getElem? hpiece)

/-- **The batches of a plan fit.** -/
theorem fits_of_mem_plan (hb : batch ∈ s.plan partitions) : s.Fits partitions batch where
  total hr := by
    rw [plan_of_not_routed hr] at hb
    have hle := length_le_of_mem_chunks hb
    simp only [cap] at hle
    omega
  partition hr p := by
    rw [plan_of_routed hr] at hb
    obtain ⟨round, _, rfl⟩ := List.mem_map.1 hb
    rw [List.countP_eq_length_filter, filter_round]
    have hle := length_pieceAt_le s.cap (membersOf partitions p) round
    simp only [cap] at hle ⊢
    omega

theorem length_plan_of_not_routed (hr : s.routed = false) (partitions : List String) :
    (s.plan partitions).length = partitions.length ⌈/⌉ max s.maxRequests 1 := by
  rw [plan_of_not_routed hr, length_chunks_eq_ceilDiv s.cap_pos, List.length_range, cap]

theorem length_plan_of_routed (hr : s.routed = true) (partitions : List String) :
    (s.plan partitions).length =
      partitions.toFinset.sup fun p => partitions.count p ⌈/⌉ max s.maxRequests 1 := by
  rw [plan_of_routed hr, List.length_map, List.length_range, roundsFor_groupsOf s.cap_pos, cap]

/-- **No batches that fit and hold all agents are fewer.** -/
theorem length_plan_le {batches : List (List Nat)}
    (hfits : ∀ batch ∈ batches, s.Fits partitions batch)
    (hcover : ∀ i < partitions.length, ∃ batch ∈ batches, i ∈ batch) :
    (s.plan partitions).length ≤ batches.length := by
  cases hr : s.routed with
  | false =>
      have hmost : ∀ batch ∈ batches, batch.countP (fun _ => true) ≤ s.cap := fun batch hb => by
        rw [List.countP_true]
        exact (hfits batch hb).total hr
      have hle := countP_range_le (fun _ => true) hcover hmost
      rw [List.countP_true, List.length_range] at hle
      rw [length_plan_of_not_routed hr]
      exact (ceilDiv_le_iff_le_mul s.cap_pos).2 hle
  | true =>
      rw [length_plan_of_routed hr]
      refine Finset.sup_le fun p _ => (ceilDiv_le_iff_le_mul s.cap_pos).2 ?_
      rw [← length_membersOf, membersOf, ← List.countP_eq_length_filter]
      exact countP_range_le _ hcover fun batch hb => (hfits batch hb).partition hr p

/-- Routing makes no difference to the agents of one partition. -/
theorem plan_of_one_partition (s : Strategy) (h : ∀ p ∈ partitions, ∀ q ∈ partitions, p = q) :
    ({ s with routed := true } : Strategy).plan partitions =
      ({ s with routed := false } : Strategy).plan partitions := by
  rw [plan_of_routed rfl, plan_of_not_routed rfl]
  cases partitions with
  | nil => simp [groupsOf, roundsFor]
  | cons p rest =>
      have hall : ∀ q ∈ p :: rest, q = p := fun q hq => h q hq p (by simp)
      have hnames : (p :: rest).eraseDups = [p] := by
        have hrest : rest.filter (fun q => !q == p) = [] := by
          rw [List.filter_eq_nil_iff]
          intro q hq
          simp [hall q (List.mem_cons_of_mem p hq)]
        rw [List.eraseDups_cons, hrest, List.eraseDups_nil]
      have hmembers : membersOf (p :: rest) p = List.range (p :: rest).length := by
        rw [membersOf, List.filter_eq_self]
        intro i hi
        have hlt := List.mem_range.1 hi
        simp [List.getElem?_eq_getElem hlt, hall _ (List.getElem_mem hlt)]
      have hrounds : roundsFor s.cap (groupsOf (p :: rest)) =
          (chunks s.cap (List.range (p :: rest).length)).length := by
        rw [groupsOf_eq, hnames, length_chunks s.cap_pos]
        simp [roundsFor, hmembers]
      change (List.range (roundsFor s.cap _)).map _ = chunks s.cap _
      rw [hrounds, hnames]
      simp only [List.flatMap_cons, List.flatMap_nil, List.append_nil, hmembers]
      exact map_pieceAt_range s.cap (List.range (p :: rest).length)

/-- **A plan keeps to the bound of its strategy, and no shorter one does.**  Without routing it has
as many batches as all agents need, with routing as many as the largest partition needs; and for one
partition routing makes no difference. -/
theorem plan_shortest (s : Strategy) (partitions : List String) :
    (∀ batch ∈ s.plan partitions, s.Fits partitions batch) ∧
    (s.routed = false →
      (s.plan partitions).length = partitions.length ⌈/⌉ max s.maxRequests 1) ∧
    (s.routed = true → (s.plan partitions).length =
      partitions.toFinset.sup fun p => partitions.count p ⌈/⌉ max s.maxRequests 1) ∧
    (∀ batches : List (List Nat), (∀ batch ∈ batches, s.Fits partitions batch) →
      (∀ i < partitions.length, ∃ batch ∈ batches, i ∈ batch) →
        (s.plan partitions).length ≤ batches.length) ∧
    ((∀ p ∈ partitions, ∀ q ∈ partitions, p = q) →
      ({ s with routed := true } : Strategy).plan partitions =
        ({ s with routed := false } : Strategy).plan partitions) :=
  ⟨fun _ hb => fits_of_mem_plan hb, fun hr => length_plan_of_not_routed hr partitions,
    fun hr => length_plan_of_routed hr partitions, fun _ hfits hcover => length_plan_le hfits hcover,
    plan_of_one_partition s⟩

end Strategy

end AgentSwarm
