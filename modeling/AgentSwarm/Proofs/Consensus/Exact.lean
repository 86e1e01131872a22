/-
**Exact numbers.**

The rules of consensus are written over any numbers with the operations they need.  Over an ordered
field whose operations are those of the rules nothing is rounded and nothing overflows; what is
proved of all exact numbers holds of the real numbers, however they are written down.

Main definitions:

* `AgentSwarm.ExactScalar` — the operations of the rules are those of an ordered field;
* `AgentSwarm.Scalar.reals` — the real numbers, with a given way to write them.

Main results:

* `AgentSwarm.ExactScalar.clampUnit_mem`, `AgentSwarm.ExactScalar.clampUnit_of_mem` — a clamped
  number lies in the unit interval, and a number that lies there already is left alone;
* `AgentSwarm.ExactScalar.sum_eq`, `AgentSwarm.ExactScalar.mean_eq` — sums and means are those of
  the field, so their order does not matter.
-/

import AgentSwarm.Scalar
import Mathlib.Algebra.BigOperators.Group.List.Basic
import Mathlib.Algebra.Order.BigOperators.Group.List
import Mathlib.Algebra.Order.Field.Basic
import Mathlib.Analysis.Real.Sqrt

set_option relaxedAutoImplicit false
set_option autoImplicit false

namespace AgentSwarm

/-- Numbers that are computed exactly. -/
class ExactScalar (R : Type) [Field R] [LinearOrder R] [Scalar R] : Prop where
  ofInt_eq (n : ℤ) : (Scalar.ofInt n : R) = n
  add_eq (x y : R) : Scalar.add x y = x + y
  sub_eq (x y : R) : Scalar.sub x y = x - y
  mul_eq (x y : R) : Scalar.mul x y = x * y
  div_eq (x y : R) : Scalar.div x y = x / y
  sqrt_nonneg (x : R) : 0 ≤ Scalar.sqrt x
  sqrt_mul_self {x : R} (h : 0 ≤ x) : Scalar.sqrt x * Scalar.sqrt x = x
  less_iff {x y : R} : Scalar.less x y = true ↔ x < y
  lessEq_iff {x y : R} : Scalar.lessEq x y = true ↔ x ≤ y
  same_iff {x y : R} : Scalar.same x y = true ↔ x = y
  isFinite_eq (x : R) : Scalar.isFinite x = true
  isNumber_eq (x : R) : Scalar.isNumber x = true
  tolerance_eq : (Scalar.tolerance : R) = 1 / 10 ^ 12

/-! ### The real numbers -/

open Classical in
/-- The real numbers, which `chars` writes down. -/
@[reducible] noncomputable def Scalar.reals (chars : ℝ → List Char) : Scalar ℝ where
  ofInt n := n
  add x y := x + y
  sub x y := x - y
  mul x y := x * y
  div x y := x / y
  sqrt x := √x
  less x y := decide (x < y)
  lessEq x y := decide (x ≤ y)
  same x y := decide (x = y)
  isFinite _ := true
  isNumber _ := true
  tolerance := 1 / 10 ^ 12
  chars := chars

/-- The real numbers are exact. -/
theorem ExactScalar.reals (chars : ℝ → List Char) : @ExactScalar ℝ _ _ (Scalar.reals chars) :=
  letI := Scalar.reals chars
  { ofInt_eq := fun _ => rfl
    add_eq := fun _ _ => rfl
    sub_eq := fun _ _ => rfl
    mul_eq := fun _ _ => rfl
    div_eq := fun _ _ => rfl
    sqrt_nonneg := Real.sqrt_nonneg
    sqrt_mul_self := Real.mul_self_sqrt
    less_iff := decide_eq_true_iff
    lessEq_iff := decide_eq_true_iff
    same_iff := decide_eq_true_iff
    isFinite_eq := fun _ => rfl
    isNumber_eq := fun _ => rfl
    tolerance_eq := rfl }

/-! ### Clamping -/

namespace ExactScalar

variable {R : Type} [Field R] [LinearOrder R] [Scalar R] [ExactScalar R]

@[simp] theorem zero_eq : (Scalar.zero : R) = 0 := by simp [Scalar.zero, ofInt_eq]

@[simp] theorem one_eq : (Scalar.one : R) = 1 := by simp [Scalar.one, ofInt_eq]

/-- **A clamped number lies in the unit interval.** -/
theorem clampUnit_mem [IsStrictOrderedRing R] (x : R) : Scalar.clampUnit x ∈ Set.Icc (0 : R) 1 := by
  rw [Scalar.clampUnit, if_pos (isNumber_eq x), Scalar.clamp, zero_eq, one_eq]
  split
  next => exact ⟨le_rfl, zero_le_one⟩
  next hlow =>
      split
      next => exact ⟨zero_le_one, le_rfl⟩
      next hhigh =>
          rw [less_iff, not_lt] at hlow hhigh
          exact ⟨hlow, hhigh⟩

/-- A number in the unit interval is not changed by clamping. -/
theorem clampUnit_of_mem {x : R} (h : x ∈ Set.Icc (0 : R) 1) : Scalar.clampUnit x = x := by
  rw [Scalar.clampUnit, if_pos (isNumber_eq x), Scalar.clamp, zero_eq, one_eq]
  have hlow : Scalar.less x 0 = false := by
    rw [← Bool.not_eq_true, less_iff]
    exact not_lt.2 h.1
  have hhigh : Scalar.less 1 x = false := by
    rw [← Bool.not_eq_true, less_iff]
    exact not_lt.2 h.2
  simp [hlow, hhigh]

/-! ### Sums and means -/

theorem foldl_add (x : R) (xs : List R) : xs.foldl Scalar.add x = x + xs.sum := by
  induction xs generalizing x with
  | nil => simp
  | cons y rest ih => rw [List.foldl_cons, ih, add_eq, List.sum_cons, add_assoc]

/-- Exact sums do not depend on their order. -/
theorem sum_eq (xs : List R) : Scalar.sum xs = xs.sum := by
  cases xs with
  | nil => exact zero_eq
  | cons x rest => rw [Scalar.sum, foldl_add, List.sum_cons]

theorem mean_eq (xs : List R) : Scalar.mean xs = xs.sum / xs.length := by
  cases xs with
  | nil => simp [Scalar.mean]
  | cons x rest => simp [Scalar.mean, div_eq, sum_eq, ofInt_eq]

/-- The mean of numbers in the unit interval is there too. -/
theorem mean_mem [IsStrictOrderedRing R] {xs : List R} (h : ∀ x ∈ xs, x ∈ Set.Icc (0 : R) 1) :
    Scalar.mean xs ∈ Set.Icc (0 : R) 1 := by
  rw [mean_eq]
  have hlow : 0 ≤ xs.sum := List.sum_nonneg fun x hx => (h x hx).1
  have hhigh : xs.sum ≤ xs.length := by
    have := List.sum_le_card_nsmul xs 1 fun x hx => (h x hx).2
    simpa using this
  exact ⟨div_nonneg hlow (Nat.cast_nonneg _), div_le_one_of_le₀ hhigh (Nat.cast_nonneg _)⟩

/-- The distance of exact numbers. -/
theorem distance_eq [IsStrictOrderedRing R] (x y : R) : Scalar.distance x y = |x - y| := by
  unfold Scalar.distance
  split
  next h =>
      rw [less_iff] at h
      rw [sub_eq, abs_of_neg (sub_neg.2 h), neg_sub]
  next h =>
      rw [less_iff, not_lt] at h
      rw [sub_eq, abs_of_nonneg (sub_nonneg.2 h)]

end ExactScalar

end AgentSwarm
