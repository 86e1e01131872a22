/-
**Agreement is a measure of spread.**

The agreement of some confidences is one less their relative spread, which is the standard deviation
divided by the mean and never counted as more than one.  So everything that is said of agreement is
said of two numbers, the mean and the population variance: all confidences are equal when the
variance vanishes, and the spread is one or more when the variance reaches the squared mean.  The mean
scales with the confidences and the variance with their squares, so a common factor cancels.

Main definitions:

* `AgentSwarm.average`, `AgentSwarm.dispersion` — the mean and the population variance of numbers;
* `AgentSwarm.MeasuresSpread` — what the agreement of confidences says about them.

Main results:

* `AgentSwarm.agreementOf_eq` — agreement is one less the relative spread;
* `AgentSwarm.agreementOf_measuresSpread` — **agreement measures spread**.
-/

import AgentSwarm.Consensus.Aggregate
import AgentSwarm.Proofs.Consensus.Exact
import Mathlib.Tactic.FieldSimp
import Mathlib.Tactic.NormNum
import Mathlib.Tactic.Ring

set_option relaxedAutoImplicit false
set_option autoImplicit false

namespace AgentSwarm

/-! ### The mean and the variance -/

section Moments

variable {R : Type} [Field R] {xs ys : List R} {c : R}

/-- The arithmetic mean of some numbers. -/
def average (xs : List R) : R := xs.sum / xs.length

/-- The population variance: the mean of the squared distances from the mean. -/
def dispersion (xs : List R) : R := average (xs.map fun x => (x - average xs) ^ 2)

theorem average_perm (h : ys.Perm xs) : average ys = average xs := by
  rw [average, average, h.sum_eq, h.length_eq]

theorem dispersion_perm (h : ys.Perm xs) : dispersion ys = dispersion xs := by
  rw [dispersion, dispersion, average_perm h]
  exact average_perm (h.map _)

theorem average_scaled (c : R) (xs : List R) : average (xs.map (c * ·)) = c * average xs := by
  rw [average, average, List.sum_map_mul_left, List.map_id', List.length_map, mul_div_assoc]

theorem dispersion_scaled (c : R) (xs : List R) :
    dispersion (xs.map (c * ·)) = c ^ 2 * dispersion xs := by
  have hsquares : (xs.map (c * ·)).map (fun x => (x - average (xs.map (c * ·))) ^ 2) =
      (xs.map fun x => (x - average xs) ^ 2).map (c ^ 2 * ·) := by
    rw [average_scaled, List.map_map, List.map_map]
    refine List.map_congr_left fun x _ => ?_
    simp only [Function.comp_apply]
    ring
  rw [dispersion, hsquares, average_scaled, dispersion]

variable [LinearOrder R] [IsStrictOrderedRing R]

theorem length_cast_pos (h : xs ≠ []) : (0 : R) < xs.length :=
  Nat.cast_pos.2 (List.length_pos_iff.2 h)

theorem average_pos (h : xs ≠ []) (hpos : ∀ x ∈ xs, 0 < x) : 0 < average xs :=
  div_pos (List.sum_pos xs hpos h) (length_cast_pos h)

theorem dispersion_nonneg (xs : List R) : 0 ≤ dispersion xs := by
  refine div_nonneg (List.sum_nonneg fun y hy => ?_) (Nat.cast_nonneg _)
  obtain ⟨x, -, rfl⟩ := List.mem_map.1 hy
  exact sq_nonneg _

/-- Numbers are all equal when none of them is away from the mean. -/
theorem dispersion_eq_zero_iff (h : xs ≠ []) :
    dispersion xs = 0 ↔ ∀ x ∈ xs, ∀ y ∈ xs, x = y := by
  have hlength : ((xs.map fun x => (x - average xs) ^ 2).length : R) ≠ 0 := by
    rw [List.length_map]
    exact (length_cast_pos h).ne'
  have hsquares : ∀ y ∈ xs.map fun x => (x - average xs) ^ 2, 0 ≤ y := by
    intro y hy
    obtain ⟨x, -, rfl⟩ := List.mem_map.1 hy
    exact sq_nonneg _
  -- squares with the sum zero are zero one by one
  have hmean : dispersion xs = 0 ↔ ∀ x ∈ xs, x = average xs := by
    rw [dispersion, average, div_eq_zero_iff, or_iff_left hlength]
    constructor
    · intro hsum x hx
      have hx := List.all_zero_of_le_zero_le_of_sum_eq_zero hsquares hsum (List.mem_map_of_mem hx)
      exact sub_eq_zero.1 (pow_eq_zero_iff two_ne_zero |>.1 hx)
    · intro heq
      refine List.sum_eq_zero fun y hy => ?_
      obtain ⟨x, hx, rfl⟩ := List.mem_map.1 hy
      rw [← heq x hx, sub_self, zero_pow two_ne_zero]
  rw [hmean]
  constructor
  · intro heq x hx y hy
    rw [heq x hx, heq y hy]
  · intro heq x hx
    have hsum : xs.sum = xs.length • x := List.sum_eq_card_nsmul xs x fun y hy => heq y hy x hx
    rw [average, hsum, nsmul_eq_mul, mul_div_cancel_left₀ x (length_cast_pos h).ne']

end Moments

/-! ### The square root -/

variable {R : Type} [Field R] [LinearOrder R] [IsStrictOrderedRing R] [Scalar R] [ExactScalar R]
variable {xs ys : List R} {c x y : R}

theorem sqrt_le_sqrt (hx : 0 ≤ x) (h : x ≤ y) : Scalar.sqrt x ≤ Scalar.sqrt y := by
  refine (mul_self_le_mul_self_iff (ExactScalar.sqrt_nonneg x) (ExactScalar.sqrt_nonneg y)).2 ?_
  rwa [ExactScalar.sqrt_mul_self hx, ExactScalar.sqrt_mul_self (hx.trans h)]

theorem le_sqrt_iff (hx : 0 ≤ x) (hy : 0 ≤ y) : x ≤ Scalar.sqrt y ↔ x ^ 2 ≤ y := by
  rw [mul_self_le_mul_self_iff hx (ExactScalar.sqrt_nonneg y), ExactScalar.sqrt_mul_self hy, sq]

theorem sqrt_eq_zero_iff (hx : 0 ≤ x) : Scalar.sqrt x = 0 ↔ x = 0 := by
  rw [← mul_self_eq_zero, ExactScalar.sqrt_mul_self hx]

/-- The square root of a square that is a factor. -/
theorem sqrt_sq_mul (hc : 0 ≤ c) (hx : 0 ≤ x) :
    Scalar.sqrt (c ^ 2 * x) = c * Scalar.sqrt x := by
  have hright : 0 ≤ c * Scalar.sqrt x := mul_nonneg hc (ExactScalar.sqrt_nonneg x)
  refine (mul_self_inj (ExactScalar.sqrt_nonneg _) hright).1 ?_
  calc Scalar.sqrt (c ^ 2 * x) * Scalar.sqrt (c ^ 2 * x)
      = c ^ 2 * x := ExactScalar.sqrt_mul_self (mul_nonneg (sq_nonneg c) hx)
    _ = c ^ 2 * (Scalar.sqrt x * Scalar.sqrt x) := by rw [ExactScalar.sqrt_mul_self hx]
    _ = c * Scalar.sqrt x * (c * Scalar.sqrt x) := by ring

/-! ### Agreement -/

omit [IsStrictOrderedRing R] in
theorem variance_eq (xs : List R) : variance xs = dispersion xs := by
  have hmean : Scalar.mean xs = average xs := ExactScalar.mean_eq xs
  simp only [variance, hmean, ExactScalar.div_eq, ExactScalar.sum_eq, ExactScalar.ofInt_eq,
    Scalar.square, ExactScalar.mul_eq, ExactScalar.sub_eq, dispersion, average, List.length_map,
    Int.cast_natCast, sq]

/-- The standard deviation relative to the mean. -/
def relativeSpread (xs : List R) : R := Scalar.sqrt (dispersion xs) / average xs

theorem relativeSpread_nonneg (hmean : 0 < average xs) : 0 ≤ relativeSpread xs :=
  div_nonneg (ExactScalar.sqrt_nonneg _) hmean.le

omit [IsStrictOrderedRing R] in
/-- A number that is not negative is only brought below one. -/
theorem clamp_eq_min (hx : 0 ≤ x) : Scalar.clamp x = min x 1 := by
  have hlow : Scalar.less x 0 = false := by
    rw [← Bool.not_eq_true, ExactScalar.less_iff]
    exact not_lt.2 hx
  rw [Scalar.clamp, ExactScalar.zero_eq, ExactScalar.one_eq, hlow, if_neg Bool.false_ne_true]
  split
  next h => rw [min_eq_right (ExactScalar.less_iff.1 h).le]
  next h =>
      rw [ExactScalar.less_iff, not_lt] at h
      rw [min_eq_left h]

/-- **Agreement is one less the relative spread**, which counts as one when it is more. -/
theorem agreementOf_eq (hmean : 0 < average xs) :
    agreementOf xs = 1 - min (relativeSpread xs) 1 := by
  have hmean' : Scalar.mean xs = average xs := ExactScalar.mean_eq xs
  have hpos : Scalar.lessEq (average xs) 0 = false := by
    rw [← Bool.not_eq_true, ExactScalar.lessEq_iff]
    exact not_le.2 hmean
  have hspread := relativeSpread_nonneg hmean
  have hmem : 1 - min (relativeSpread xs) 1 ∈ Set.Icc (0 : R) 1 :=
    ⟨sub_nonneg.2 (min_le_right _ _), sub_le_self _ (le_min hspread zero_le_one)⟩
  simp only [agreementOf, hmean', ExactScalar.zero_eq, hpos, Bool.false_eq_true, if_false,
    ExactScalar.div_eq, variance_eq, ExactScalar.sub_eq, ExactScalar.one_eq]
  rw [← relativeSpread, clamp_eq_min hspread, ExactScalar.clampUnit_of_mem hmem]

theorem agreementOf_eq_one_iff (h : xs ≠ []) (hmean : 0 < average xs) :
    agreementOf xs = 1 ↔ ∀ x ∈ xs, ∀ y ∈ xs, x = y := by
  have hspread := relativeSpread_nonneg hmean
  have hmin : min (relativeSpread xs) 1 = 0 ↔ relativeSpread xs = 0 := by
    constructor
    · intro hzero
      rcases min_choice (relativeSpread xs) 1 with hleft | hright
      · exact hleft.symm.trans hzero
      · exact absurd (hright.symm.trans hzero) one_ne_zero
    · intro hzero
      rw [hzero, min_eq_left zero_le_one]
  rw [agreementOf_eq hmean, sub_eq_self, hmin, relativeSpread, div_eq_zero_iff,
    or_iff_left hmean.ne', sqrt_eq_zero_iff (dispersion_nonneg xs), dispersion_eq_zero_iff h]

theorem agreementOf_eq_zero_iff (hmean : 0 < average xs) :
    agreementOf xs = 0 ↔ average xs ^ 2 ≤ dispersion xs := by
  rw [agreementOf_eq hmean, sub_eq_zero, eq_comm, min_eq_right_iff, relativeSpread,
    one_le_div hmean, le_sqrt_iff hmean.le (dispersion_nonneg xs)]

/-- A wider spread around the same mean never agrees more. -/
theorem agreementOf_antitone (hmean : 0 < average xs) (heq : average xs = average ys)
    (h : dispersion xs ≤ dispersion ys) : agreementOf ys ≤ agreementOf xs := by
  have hspread : relativeSpread xs ≤ relativeSpread ys := by
    rw [relativeSpread, relativeSpread, ← heq]
    exact div_le_div_of_nonneg_right (sqrt_le_sqrt (dispersion_nonneg xs) h) hmean.le
  rw [agreementOf_eq hmean, agreementOf_eq (heq ▸ hmean)]
  exact sub_le_sub_left (min_le_min_right 1 hspread) 1

omit [IsStrictOrderedRing R] in
theorem agreementOf_perm (h : ys.Perm xs) : agreementOf ys = agreementOf xs := by
  simp only [agreementOf, variance_eq, dispersion_perm h, ExactScalar.mean_eq, h.sum_eq,
    h.length_eq]

theorem agreementOf_scaled (hmean : 0 < average xs) (hc : 0 < c) :
    agreementOf (xs.map (c * ·)) = agreementOf xs := by
  have hspread : relativeSpread (xs.map (c * ·)) = relativeSpread xs := by
    rw [relativeSpread, dispersion_scaled, average_scaled, sqrt_sq_mul hc.le (dispersion_nonneg xs),
      mul_div_mul_left _ _ hc.ne', relativeSpread]
  have hscaled : 0 < average (xs.map (c * ·)) := by
    rw [average_scaled]
    exact mul_pos hc hmean
  rw [agreementOf_eq hscaled, hspread, agreementOf_eq hmean]

/-- What the agreement of confidences says about them. -/
structure MeasuresSpread (xs : List R) : Prop where
  /-- It lies in the unit interval. -/
  mem : agreementOf xs ∈ Set.Icc (0 : R) 1
  /-- It is one exactly for equal confidences. -/
  eq_one_iff : agreementOf xs = 1 ↔ ∀ x ∈ xs, ∀ y ∈ xs, x = y
  /-- It is zero exactly when the variance reaches the squared mean. -/
  eq_zero_iff : agreementOf xs = 0 ↔ average xs ^ 2 ≤ dispersion xs
  /-- Their order does not matter. -/
  perm : ∀ ys, ys.Perm xs → agreementOf ys = agreementOf xs
  /-- A common factor does not matter. -/
  scaled : ∀ c, 0 < c → agreementOf (xs.map (c * ·)) = agreementOf xs
  /-- Of two lists with one mean, the one with the larger variance never agrees more. -/
  antitone : ∀ ys, average ys = average xs → dispersion xs ≤ dispersion ys →
    agreementOf ys ≤ agreementOf xs

/-- **Agreement measures spread**, for confidences above zero. -/
theorem agreementOf_measuresSpread (h : xs ≠ []) (hpos : ∀ x ∈ xs, 0 < x) : MeasuresSpread xs := by
  have hmean := average_pos h hpos
  have hspread := relativeSpread_nonneg hmean
  constructor
  case mem =>
    rw [agreementOf_eq hmean]
    exact ⟨sub_nonneg.2 (min_le_right _ _), sub_le_self _ (le_min hspread zero_le_one)⟩
  case eq_one_iff => exact agreementOf_eq_one_iff h hmean
  case eq_zero_iff => exact agreementOf_eq_zero_iff hmean
  case perm => exact fun ys hys => agreementOf_perm hys
  case scaled => exact fun c hc => agreementOf_scaled hmean hc
  case antitone => exact fun ys hys hle => agreementOf_antitone hmean hys.symm hle

/-- Three confidences that are not the same. -/
theorem agreementOf_measuresSpread_met : letI := Scalar.reals fun _ => []
    ([1 / 4, 1 / 2, 1] : List ℝ) ≠ [] ∧ (∀ x ∈ ([1 / 4, 1 / 2, 1] : List ℝ), 0 < x) ∧
      MeasuresSpread ([1 / 4, 1 / 2, 1] : List ℝ) := by
  let := Scalar.reals fun _ => []
  have := ExactScalar.reals fun _ => []
  have hne : ([1 / 4, 1 / 2, 1] : List ℝ) ≠ [] := List.cons_ne_nil _ _
  have hpos : ∀ x ∈ ([1 / 4, 1 / 2, 1] : List ℝ), 0 < x := by
    intro x hx
    simp only [List.mem_cons, List.not_mem_nil, or_false] at hx
    rcases hx with rfl | rfl | rfl <;> norm_num
  exact ⟨hne, hpos, agreementOf_measuresSpread hne hpos⟩

end AgentSwarm
