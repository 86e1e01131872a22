/-
**What a history says of the records it was given.**

A history that began empty keeps the last of its records, as many as its window holds, and its
averages are taken over these and no others.  An average of the history is the mean of what the kept
records say, so it lies between the smallest and the largest of that, and a record that was given up
no longer counts in it.  What is kept does not depend on the numbers in the records; the averages
are stated for exact numbers.

Main definitions:

* `AgentSwarm.IsMean` — a number is the mean of some numbers;
* `AgentSwarm.TaskRecord.mark` — what a record counts for in the share of successes;
* `AgentSwarm.History.Recalls` — a history has the last of some records and has counted all;
* `AgentSwarm.History.Averages` — the averages of a history are those of the records it has.

Main results:

* `AgentSwarm.isMean_average` — the mean lies between the smallest number and the largest;
* `AgentSwarm.History.averages` — averages are taken over the records that are kept;
* `AgentSwarm.History.recordAll_recalls` — **a history speaks of its last records alone**.
-/

import AgentSwarm.Proofs.Agent.History
import AgentSwarm.Proofs.Consensus.Agreement

set_option relaxedAutoImplicit false
set_option autoImplicit false

namespace AgentSwarm

/-! ### The mean lies among the numbers -/

section Means

variable {R : Type} [Field R] [LinearOrder R] {xs : List R} {low high : R}

/-- A number is the mean of some numbers, and zero if there are none. -/
structure IsMean (xs : List R) (mean : R) : Prop where
  eq_average : mean = average xs
  eq_zero : xs = [] → mean = 0
  /-- It lies between the smallest and the largest of them. -/
  between : xs ≠ [] → ∃ low high, IsLeast {x | x ∈ xs} low ∧ IsGreatest {x | x ∈ xs} high ∧
    mean ∈ Set.Icc low high

variable [IsStrictOrderedRing R]

theorem le_average (h : xs ≠ []) (hlow : ∀ x ∈ xs, low ≤ x) : low ≤ average xs := by
  rw [average, le_div_iff₀ (length_cast_pos h)]
  calc low * xs.length = xs.length • low := by rw [nsmul_eq_mul, mul_comm]
    _ ≤ xs.sum := List.card_nsmul_le_sum xs low hlow

theorem average_le (h : xs ≠ []) (hhigh : ∀ x ∈ xs, x ≤ high) : average xs ≤ high := by
  rw [average, div_le_iff₀ (length_cast_pos h)]
  calc xs.sum ≤ xs.length • high := List.sum_le_card_nsmul xs high hhigh
    _ = high * xs.length := by rw [nsmul_eq_mul, mul_comm]

/-- **The mean lies between the smallest number and the largest.** -/
theorem isMean_average (xs : List R) : IsMean xs (average xs) where
  eq_average := rfl
  eq_zero h := by simp [h, average]
  between h := by
    have hsome : {x | x ∈ xs}.Nonempty := List.exists_mem_of_ne_nil xs h
    obtain ⟨low, hlow⟩ : ∃ low, IsLeast {x | x ∈ xs} low :=
      Set.exists_min_image _ id xs.finite_toSet hsome
    obtain ⟨high, hhigh⟩ : ∃ high, IsGreatest {x | x ∈ xs} high :=
      Set.exists_max_image _ id xs.finite_toSet hsome
    exact ⟨low, high, hlow, hhigh, le_average h fun _ hx => hlow.2 hx,
      average_le h fun _ hx => hhigh.2 hx⟩

end Means

/-! ### The share of successes -/

section Marks

variable {R : Type} [Field R]

/-- A success counts for one and a failure for nothing. -/
def TaskRecord.mark (r : TaskRecord R) : R := if r.success then 1 else 0

theorem sum_marks (rs : List (TaskRecord R)) :
    (rs.map TaskRecord.mark).sum = rs.countP (·.success) := by
  induction rs with
  | nil => simp
  | cons r rs ih =>
      rw [List.map_cons, List.sum_cons, ih, List.countP_cons, TaskRecord.mark]
      split <;> simp [add_comm]

/-- The share of successes is the mean of the marks. -/
theorem average_marks (rs : List (TaskRecord R)) :
    average (rs.map TaskRecord.mark) = rs.countP (·.success) / rs.length := by
  rw [average, sum_marks, List.length_map]

end Marks

/-! ### The averages of a history -/

namespace History

section Exact

variable {R : Type} [Field R] [LinearOrder R] [Scalar R] [ExactScalar R]

theorem averageConfidence_eq (h : History R) :
    h.averageConfidence = average (h.records.map (·.confidence)) := ExactScalar.mean_eq _

theorem averageExecutionMillis_eq (h : History R) :
    h.averageExecutionMillis = average (h.records.map fun r => (r.executionMillis : R)) := by
  simp only [averageExecutionMillis, ExactScalar.ofInt_eq, Int.cast_natCast]
  exact ExactScalar.mean_eq _

theorem successRate_eq (h : History R) :
    h.successRate = h.records.countP (·.success) / h.records.length := by
  rw [successRate]
  split
  next hnone => simp [List.isEmpty_iff.1 hnone]
  next hsome => simp only [ExactScalar.div_eq, ExactScalar.ofInt_eq, Int.cast_natCast]

/-- The averages of a history are those of the records it has. -/
structure Averages (h : History R) : Prop where
  confidence : IsMean (h.records.map (·.confidence)) h.averageConfidence
  millis : IsMean (h.records.map fun r => (r.executionMillis : R)) h.averageExecutionMillis
  /-- The success rate is the number of successes divided by the number of records. -/
  share : h.successRate = h.records.countP (·.success) / h.records.length
  success : IsMean (h.records.map TaskRecord.mark) h.successRate

/-- **Averages are taken over the records that are kept.** -/
theorem averages [IsStrictOrderedRing R] (h : History R) : h.Averages where
  confidence := h.averageConfidence_eq ▸ isMean_average _
  millis := h.averageExecutionMillis_eq ▸ isMean_average _
  share := h.successRate_eq
  success := by
    rw [successRate_eq, ← average_marks]
    exact isMean_average _

end Exact

/-- A history has the last of some records, as many as its window holds, and has counted all. -/
structure Recalls {R : Type} (size : Nat) (rs : List (TaskRecord R)) (h : History R) : Prop where
  /-- What it has is the end of the records, in their order. -/
  suffix : h.records <:+ rs
  length : h.records.length = min rs.length size
  total : h.total = rs.length

/-- **A history speaks of its last records alone**: it has the last of them, counts all of them, and
takes its averages over those it has. -/
theorem recordAll_recalls {R : Type} (w : Nat) (rs : List (TaskRecord R)) :
    ((empty w).recordAll rs).Recalls (max w 1) rs ∧
      ∀ [Field R] [LinearOrder R] [IsStrictOrderedRing R] [Scalar R] [ExactScalar R],
        ((empty w).recordAll rs).Averages := by
  have hkept : ((empty w).recordAll rs).records = rs.drop (rs.length - max w 1) :=
    records_recordAll_empty
  refine ⟨⟨?suffix, ?length, total_recordAll_empty⟩, averages _⟩
  case suffix =>
    rw [hkept]
    exact List.drop_suffix _ _
  case length =>
    rw [hkept, List.length_drop]
    omega

namespace Sample

/-- Two successes and a failure. -/
noncomputable def tries : List (TaskRecord ℝ) :=
  [⟨"a", true, 1 / 5, 10, default⟩, ⟨"b", true, 3 / 5, 20, default⟩, ⟨"c", false, 1, 40, default⟩]

end Sample

/-- A window for two records, which has given up the first of three. -/
theorem recordAll_recalls_met :
    letI := Scalar.reals fun _ => []
    ExactScalar ℝ ∧ ((empty 2).recordAll Sample.tries).Recalls 2 Sample.tries ∧
      ((empty 2).recordAll Sample.tries).Averages ∧
      ((empty 2).recordAll Sample.tries).averageConfidence = 4 / 5 ∧
      ((empty 2).recordAll Sample.tries).successRate = 1 / 2 := by
  let := Scalar.reals fun _ => []
  have hexact := ExactScalar.reals fun _ => []
  have hrecalls := (recordAll_recalls 2 Sample.tries).1
  have haverages : ((empty 2).recordAll Sample.tries).Averages := (recordAll_recalls 2 _).2
  have hkept : ((empty 2).recordAll Sample.tries).records = Sample.tries.drop 1 := rfl
  refine ⟨hexact, hrecalls, haverages, ?confidence, ?share⟩
  case confidence =>
    rw [haverages.confidence.eq_average, hkept]
    norm_num [Sample.tries, average]
  case share =>
    rw [haverages.share, hkept]
    norm_num [Sample.tries]

end History

end AgentSwarm
