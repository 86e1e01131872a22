/-
**The two votes agree.**

Answers that are neither all numbers nor all objects are put to a vote by both algorithms: the
majority vote weighs them by the confidences as they are, the confidence-weighted combination by the
shares of the confidences in their sum.  Both count the answers under their texts and select a bloc
by the same rule, so they give the same answer as long as no two masses tie with the confidences and
not with the shares.  They give different answers when all confidences are so low that masses tie of
which one is many times the other.

Main results:

* `AgentSwarm.value_confidenceWeighted`, `AgentSwarm.value_majorityVote` — what the two algorithms
  answer;
* `AgentSwarm.aggregate_concord` — **the two votes agree** where ties are kept;
* `AgentSwarm.aggregate_discord` — two answers on which they do not.
-/

import AgentSwarm.Proofs.Consensus.Majority
import AgentSwarm.Proofs.Consensus.Scaling

set_option relaxedAutoImplicit false
set_option autoImplicit false

namespace AgentSwarm

/-! ### The majority vote -/

section Majority

variable {R : Type} [Scalar R] {ballots : List (Ballot R)}

/-- The value of a majority vote under the default key is that of the plurality. -/
theorem value_majorityVote (metadata : Members R) (h : ballots ≠ []) :
    (majorityVote VoteKey.compact ballots metadata).value = some (plurality ballots) := by
  obtain ⟨u, hu, -⟩ := exists_leader Json.compact h
  have hvote : leader (blocsOf (VoteKey.compact : VoteKey R).keyOf ballots) = some u := hu
  rw [(majorityVote_selects metadata hvote).value, plurality_eq hu]

theorem participants_majorityVote (key : VoteKey R) (metadata : Members R) (h : ballots ≠ []) :
    (majorityVote key ballots metadata).participants = ballots.map (·.agentId) := by
  obtain ⟨u, hu, -⟩ := exists_leader key.keyOf h
  simp only [majorityVote, hu]

end Majority

/-! ### The two votes -/

variable {R : Type} [Field R] [LinearOrder R] [Scalar R] [ExactScalar R]
variable {ballots : List (Ballot R)} {results : List (String × AgentResult R)}

/-- The value of the confidence-weighted combination is that of renormalised ballots. -/
theorem value_confidenceWeighted (ballots : List (Ballot R)) (metadata : Members R) :
    (confidenceWeighted ballots metadata).value = some (combine (renormalised ballots)) := by
  have hshare : ∀ b : Ballot R,
      { b with weight := Scalar.div b.weight (Scalar.sum (ballots.map (·.weight))) } =
        b.scale (weightOf ballots)⁻¹ := by
    intro b
    rw [Ballot.scale, ExactScalar.div_eq, ExactScalar.sum_eq, weightOf, div_eq_inv_mul]
  simp only [confidenceWeighted, hshare]
  rfl

/-- **The two votes agree**: on answers that are neither all numbers nor all objects the
confidence-weighted combination and the majority vote under the default key have the same
participants, and the same value unless masses tie with the confidences and not with their shares,
or the other way round. -/
theorem aggregate_concord [IsStrictOrderedRing R] (h : Mixed (survivors results)) :
    (aggregate VoteKey.compact .confidenceWeighted results).participants =
      (aggregate VoteKey.compact .majorityVote results).participants ∧
    (KeepsTies (weightOf (survivors results))⁻¹ (blocsOf Json.compact (survivors results)) →
      (aggregate VoteKey.compact .confidenceWeighted results).value =
        (aggregate VoteKey.compact .majorityVote results).value) := by
  have hne := h.ne_nil
  simp only [aggregate, List.isEmpty_iff, hne, if_false]
  refine ⟨(participants_majorityVote _ _ hne).symm, fun hties => ?_⟩
  have hweight : 0 < (weightOf (survivors results))⁻¹ :=
    inv_pos.2 (weightOf_pos hne survivors_pos)
  rw [value_confidenceWeighted, value_majorityVote _ hne, renormalised,
    combine_scaled_of_tiesKept hweight (tiesKept_of_not_objects h.object fun _ => hties),
    combine_eq_plurality h]

namespace Sample

/-- Two answers of which one is surer. -/
noncomputable def sure : List (String × AgentResult ℝ) :=
  [said "b" "lp" (3 / 8 : ℚ), said "c" "mip" (1 / 8 : ℚ)]

theorem survivors_sure : letI := Scalar.reals fun _ => []
    survivors sure = kinds := by
  rw [sure, survivors_said _ _ (by norm_num), survivors_said _ _ (by norm_num)]
  rfl

/-- Two answers of which neither is sure at all. -/
noncomputable def unsure : List (String × AgentResult ℝ) :=
  [said "b" "x" (1 / 10 ^ 13 : ℚ), said "c" "y" (9 / 10 ^ 13 : ℚ)]

theorem survivors_unsure : letI := Scalar.reals fun _ => []
    survivors unsure = faint := by
  rw [unsure, survivors_said _ _ (by norm_num), survivors_said _ _ (by norm_num)]
  rfl

end Sample

/-- Both votes are won by the surer answer. -/
theorem aggregate_concord_met : letI := Scalar.reals fun _ => []
    Mixed (survivors Sample.sure) ∧
      KeepsTies (weightOf (survivors Sample.sure))⁻¹
        (blocsOf Json.compact (survivors Sample.sure)) ∧
      (aggregate VoteKey.compact .confidenceWeighted Sample.sure).value =
        (aggregate VoteKey.compact .majorityVote Sample.sure).value := by
  let := Scalar.reals fun _ => []
  have := ExactScalar.reals fun _ => []
  have hmixed : Mixed (survivors Sample.sure) := by
    rw [Sample.survivors_sure]
    exact ⟨⟨_, List.mem_cons_self, rfl⟩, ⟨_, List.mem_cons_self, rfl⟩⟩
  have hties : KeepsTies (weightOf (survivors Sample.sure))⁻¹
      (blocsOf Json.compact (survivors Sample.sure)) := by
    have hweight : (weightOf Sample.kinds)⁻¹ = 2 := by norm_num [weightOf, Sample.kinds]
    rw [Sample.survivors_sure, hweight]
    exact Sample.keepsTies_kinds
  exact ⟨hmixed, hties, (aggregate_concord hmixed).2 hties⟩

/-- **Two answers on which the two votes do not agree.**  With confidences of `1e-13` and `9e-13`
the masses tie in the majority vote, so the first agent wins; their shares do not tie, and the
second one wins with nine tenths. -/
theorem aggregate_discord : letI := Scalar.reals fun _ => []
    Mixed (survivors Sample.unsure) ∧
      (aggregate VoteKey.compact .majorityVote Sample.unsure).value = some (.str "x") ∧
      (aggregate VoteKey.compact .confidenceWeighted Sample.unsure).value = some (.str "y") := by
  let := Scalar.reals fun _ => []
  have := ExactScalar.reals fun _ => []
  have hmixed : Mixed Sample.faint := ⟨⟨_, List.mem_cons_self, rfl⟩, ⟨_, List.mem_cons_self, rfl⟩⟩
  have hne : Sample.faint ≠ [] := hmixed.ne_nil
  have hone : scaled 1 Sample.faint = Sample.faint := by
    simp [scaled, Sample.faint, Ballot.scale]
  simp only [aggregate, Sample.survivors_unsure, List.isEmpty_iff, hne, if_false]
  refine ⟨hmixed, ?_, ?_⟩
  · rw [value_majorityVote _ hne, ← combine_eq_plurality hmixed, ← hone,
      Sample.combine_scaled_faint, if_neg (by norm_num)]
  · rw [value_confidenceWeighted, renormalised, Sample.weightOf_faint, Sample.combine_scaled_faint,
      if_pos (by norm_num)]

end AgentSwarm
