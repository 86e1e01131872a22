/-
**Doubles are told apart by their texts.**

A finite double is given by a sign, a biased exponent and a fraction.  The rational numbers that
round to its magnitude form an interval, and the intervals of different magnitudes only meet at
midpoints, which belong to the one with the even mantissa.  The digits that are written round to the
magnitude, so the text of a double says which one it is, and it says the sign of a zero, too.  As
numbers the two zeros are equal; all other numbers are equal only if they are the same double.

Main definitions:

* `AgentSwarm.Decimal.biasedOf`, `AgentSwarm.Decimal.fractionOf` — the fields of a double;
* `AgentSwarm.Decimal.Binary.Below` — a magnitude with all its roundings before another one;
* `AgentSwarm.Decimal.SameNumber` — equal numbers, the two zeros told apart.

Main results:

* `AgentSwarm.Decimal.below_ofFields` — the intervals of magnitudes are in the order of the fields;
* `AgentSwarm.Decimal.sameNumber_iff` — only the two zeros are equal without being the same;
* `AgentSwarm.Decimal.eq_of_ofFloat_eq` — **doubles with one text are the same**.
-/

import AgentSwarm.Proofs.Decimal.Notation
import Mathlib

set_option relaxedAutoImplicit false
set_option autoImplicit false

namespace AgentSwarm.Decimal

/-! ### Intervals of magnitudes -/

namespace Binary

variable {b b' : Binary}

/-- All that rounds to the first number is below what rounds to the second; at most they meet in a
midpoint, and then one of the mantissas is odd. -/
def Below (b b' : Binary) : Prop :=
  b.upper ≤ b'.lower ∧ (b.upper = b'.lower → b.mantissa % 2 = 1 ∨ b'.mantissa % 2 = 1)

/-- Nothing rounds to both. -/
theorem Below.not_rounds {x : ℚ} (h : b.Below b') (hx : b.Rounds x) : ¬ b'.Rounds x := by
  intro hx'
  have hupper : x = b.upper := le_antisymm hx.le_upper (h.1.trans hx'.lower_le)
  have hlower : x = b'.lower := le_antisymm (hx.le_upper.trans h.1) hx'.lower_le
  have heven := hx.even_of_eq (.inr hupper)
  have heven' := hx'.even_of_eq (.inl hlower)
  have hodd := h.2 (hupper.symm.trans hlower)
  omega

/-- Numbers with one exponent are in the order of their mantissas. -/
theorem Below.of_exponent_eq (he : b.exponent = b'.exponent) (hm : b.mantissa < b'.mantissa)
    (hn : b'.narrowBelow = false) : b.Below b' := by
  have hunit : (0 : ℚ) < 2 ^ b'.exponent := by positivity
  have hnext : (b.mantissa : ℚ) + 1 ≤ b'.mantissa := by exact_mod_cast hm
  have hgap : b'.gapBelow = 1 / 2 := by rw [gapBelow, hn]; rfl
  rw [Below, upper, lower, he, hgap]
  constructor
  · exact mul_le_mul_of_nonneg_right (by linarith) hunit.le
  · intro heq
    have hsum : (b.mantissa : ℚ) + 1 = b'.mantissa := by
      have := mul_right_cancel₀ hunit.ne' heq
      linarith
    have : b.mantissa + 1 = b'.mantissa := by exact_mod_cast hsum
    omega

/-- A number with a greater exponent and a normal mantissa is greater. -/
theorem Below.of_exponent_lt (half : ℕ) (he : b.exponent < b'.exponent)
    (hm : b.mantissa < 2 * half) (hm' : half ≤ b'.mantissa)
    (hn : b'.narrowBelow = false → half < b'.mantissa) : b.Below b' := by
  have hunit : (0 : ℚ) < 2 ^ b.exponent := by positivity
  have hdouble : 2 * (2 : ℚ) ^ b.exponent ≤ 2 ^ b'.exponent := by
    rw [mul_comm, ← zpow_add_one₀ (by norm_num)]
    exact zpow_le_zpow_right₀ (by norm_num) (by omega)
  have hmantissa : (b.mantissa : ℚ) + 1 ≤ 2 * half := by exact_mod_cast hm
  have hmid : (half : ℚ) - 1 / 4 ≤ b'.mantissa - b'.gapBelow := by
    unfold gapBelow
    cases hnarrow : b'.narrowBelow with
    | true =>
        have : (half : ℚ) ≤ b'.mantissa := by exact_mod_cast hm'
        simp only [if_true]
        linarith
    | false =>
        have : (half : ℚ) + 1 ≤ b'.mantissa := by exact_mod_cast hn hnarrow
        simp only [Bool.false_eq_true, if_false]
        linarith
  have hhalf : (1 : ℚ) ≤ half := by
    have : 1 ≤ half := by omega
    exact_mod_cast this
  -- the midpoint below the second number, in units of the first one
  have hlower : (2 * half - 1 / 2) * (2 : ℚ) ^ b.exponent ≤ b'.lower := by
    calc (2 * half - 1 / 2) * (2 : ℚ) ^ b.exponent = (half - 1 / 4) * (2 * 2 ^ b.exponent) := by ring
      _ ≤ (half - 1 / 4) * 2 ^ b'.exponent := mul_le_mul_of_nonneg_left hdouble (by linarith)
      _ ≤ b'.lower := mul_le_mul_of_nonneg_right hmid (by positivity)
  rw [Below, upper]
  constructor
  · exact (mul_le_mul_of_nonneg_right (by linarith) hunit.le).trans hlower
  · intro heq
    have hle := le_of_mul_le_mul_right (heq ▸ hlower) hunit
    have hsum : (b.mantissa : ℚ) + 1 = (2 * half : ℕ) := by
      push_cast
      linarith
    have : b.mantissa + 1 = 2 * half := by exact_mod_cast hsum
    omega

end Binary

section Fields

variable {width biased biased' fraction fraction' : ℕ} {least : ℤ}

theorem mantissa_ofFields : (Binary.ofFields width least biased fraction).mantissa =
    if biased = 0 then fraction else 2 ^ width + fraction := by
  unfold Binary.ofFields
  split <;> rfl

theorem exponent_ofFields : (Binary.ofFields width least biased fraction).exponent =
    if biased = 0 then least else least + biased - 1 := by
  unfold Binary.ofFields
  split <;> rfl

theorem narrowBelow_ofFields : (Binary.ofFields width least biased fraction).narrowBelow = true ↔
    fraction = 0 ∧ 1 < biased := by
  unfold Binary.ofFields
  split
  next h => simp [h]
  next h =>
      rw [Bool.and_eq_true, beq_iff_eq, bne_iff_ne]
      omega

/-- The intervals of magnitudes are in the order of their fields. -/
theorem below_ofFields (hf : fraction < 2 ^ width)
    (h : biased < biased' ∨ biased = biased' ∧ fraction < fraction') :
    (Binary.ofFields width least biased fraction).Below
      (Binary.ofFields width least biased' fraction') := by
  by_cases hsame : biased = biased' ∨ biased = 0 ∧ biased' = 1
  · -- subnormal numbers have the exponent of the least normal ones
    refine .of_exponent_eq ?_ ?_ ?_
    · simp only [exponent_ofFields]
      omega
    · simp only [mantissa_ofFields]
      split_ifs <;> omega
    · rw [← Bool.not_eq_true, narrowBelow_ofFields]
      omega
  · refine .of_exponent_lt (2 ^ width) ?_ ?_ ?_ fun hnarrow => ?_
    · simp only [exponent_ofFields]
      omega
    · simp only [mantissa_ofFields]
      split_ifs <;> omega
    · simp only [mantissa_ofFields]
      split_ifs <;> omega
    · rw [← Bool.not_eq_true, narrowBelow_ofFields] at hnarrow
      simp only [mantissa_ofFields]
      split_ifs <;> omega

/-- **What rounds to two magnitudes shows that they are the same.** -/
theorem fields_eq_of_rounds {x : ℚ} (hf : fraction < 2 ^ width) (hf' : fraction' < 2 ^ width)
    (hx : (Binary.ofFields width least biased fraction).Rounds x)
    (hx' : (Binary.ofFields width least biased' fraction').Rounds x) :
    biased = biased' ∧ fraction = fraction' := by
  have hnot : ¬ (biased < biased' ∨ biased = biased' ∧ fraction < fraction') :=
    fun h => (below_ofFields hf h).not_rounds hx hx'
  have hnot' : ¬ (biased' < biased ∨ biased' = biased ∧ fraction' < fraction) :=
    fun h => (below_ofFields hf' h).not_rounds hx' hx
  omega

end Fields

/-! ### The fields of a double -/

/-- The biased exponent of a double. -/
def biasedOf (x : Float) : ℕ := x.toBits.toNat / Nat.pow 2 52 % Nat.pow 2 11

/-- The fraction of a double. -/
def fractionOf (x : Float) : ℕ := x.toBits.toNat % Nat.pow 2 52

theorem fractionOf_lt (x : Float) : fractionOf x < 2 ^ 52 := Nat.mod_lt _ (by norm_num)

theorem ofFloat_eq (x : Float) :
    Binary.ofFloat x = .ofFields 52 (-1074) (biasedOf x) (fractionOf x) := rfl

/-- The magnitude of a double is zero when both fields are. -/
theorem mantissa_eq_zero_iff {x : Float} :
    (Binary.ofFloat x).mantissa = 0 ↔ biasedOf x = 0 ∧ fractionOf x = 0 := by
  rw [ofFloat_eq, mantissa_ofFields]
  split_ifs <;> omega

/-- **A double is given by its sign, its exponent and its fraction.** -/
theorem eq_of_fields {x y : Float} (hsign : isNegative x = isNegative y)
    (hbiased : biasedOf x = biasedOf y) (hfraction : fractionOf x = fractionOf y) : x = y := by
  have hx := x.toBits.toNat_lt
  have hy := y.toBits.toNat_lt
  have hbits : x.toBits.toNat = y.toBits.toNat := by
    simp only [isNegative, biasedOf, fractionOf, Nat.pow_eq] at hsign hbiased hfraction
    rw [Bool.eq_iff_iff, beq_iff_eq, beq_iff_eq] at hsign
    omega
  exact Float.toBits_inj.1 (UInt64.toNat_inj.1 hbits)

/-! ### Equal doubles -/

/-- Two doubles are the same number, and of the same sign if that number is zero. -/
def SameNumber (x y : Float) : Prop :=
  (x == y) = true ∧ ((x == 0) = true → isNegative x = isNegative y)

/-- **Only the two zeros are the same number without being the same double.** -/
theorem sameNumber_iff {x y : Float} (hx : x.isFinite = true) : SameNumber x y ↔ x = y := by
  have hnumber : x ≠ Float.nan := by
    rintro rfl
    revert hx
    decide
  constructor
  · rintro ⟨hsame, hsign⟩
    obtain ⟨-, -, heq | ⟨rfl, rfl⟩ | ⟨rfl, rfl⟩⟩ := Float.beq_iff_ne_nan_and_eq.1 hsame
    · exact heq
    · exact absurd (hsign (by decide)) (by decide)
    · exact absurd (hsign (by decide)) (by decide)
  · rintro rfl
    exact ⟨Float.beq_self_iff.2 hnumber, fun _ => rfl⟩

/-! ### Texts of doubles -/

/-- The digits that are written round to the magnitude. -/
theorem rounds_shortest_ofFloat {x : Float} (hm : 0 < (Binary.ofFloat x).mantissa) :
    (Binary.ofFloat x).Rounds (Binary.ofFloat x).shortest.value := by
  have hfraction := fractionOf_lt x
  have hmantissa : (Binary.ofFloat x).mantissa < 2 ^ 53 := by
    rw [ofFloat_eq, mantissa_ofFields]
    split_ifs <;> omega
  refine Binary.rounds_shortest hm (hmantissa.trans (by norm_num)) fun hnarrow => ?_
  rw [ofFloat_eq, narrowBelow_ofFields] at hnarrow
  rw [ofFloat_eq, mantissa_ofFields, hnarrow.1]
  split_ifs <;> norm_num

/-- Nothing that rounds to a magnitude other than zero is zero. -/
theorem Binary.Rounds.pos {b : Binary} {x : ℚ} (h : b.Rounds x) (hm : 0 < b.mantissa) : 0 < x := by
  have hunit : (0 : ℚ) < 2 ^ b.exponent := by positivity
  have hone : (1 : ℚ) ≤ b.mantissa := by exact_mod_cast hm
  have hgap : b.gapBelow ≤ 1 / 2 := by
    unfold gapBelow
    split <;> norm_num
  exact (mul_pos (by linarith) hunit).trans_le h.lower_le

theorem shortest_of_zero {b : Binary} (hm : b.mantissa = 0) : b.shortest.value = 0 := by
  rw [Binary.shortest, if_pos hm, Digits.value]
  simp

/-- The sign and the digits are read off the text of a double. -/
theorem ofFloat_inj {form : Notation} {x y : Float} (h : form.ofFloat x = form.ofFloat y) :
    isNegative x = isNegative y ∧
      (Binary.ofFloat x).shortest.value = (Binary.ofFloat y).shortest.value := by
  unfold Notation.ofFloat at h
  dsimp only at h
  have hvalue : ∀ d d' : Digits, form.chars d = form.chars d' → d.value = d'.value := by
    intro d d' hchars
    rw [← textValue_chars form, hchars, textValue_chars]
  cases hx : isNegative x <;> cases hy : isNegative y <;> simp only [hx, hy, if_true, if_false,
    Bool.false_eq_true] at h
  · exact ⟨rfl, hvalue _ _ h⟩
  · exact absurd h (chars_ne_minus form _ _)
  · exact absurd h.symm (chars_ne_minus form _ _)
  · exact ⟨rfl, hvalue _ _ (List.cons.inj h).2⟩

/-- **Doubles with one text are the same.** -/
theorem eq_of_ofFloat_eq {form : Notation} {x y : Float}
    (h : form.ofFloat x = form.ofFloat y) : x = y := by
  obtain ⟨hsign, hvalue⟩ := ofFloat_inj h
  by_cases hm : 0 < (Binary.ofFloat x).mantissa
  · have hx := rounds_shortest_ofFloat hm
    have hm' : 0 < (Binary.ofFloat y).mantissa := by
      by_contra hzero
      rw [shortest_of_zero (Nat.eq_zero_of_not_pos hzero)] at hvalue
      exact (hx.pos hm).ne' hvalue
    have hy := rounds_shortest_ofFloat hm'
    rw [hvalue] at hx
    obtain ⟨hbiased, hfraction⟩ := fields_eq_of_rounds (fractionOf_lt x) (fractionOf_lt y) hx hy
    exact eq_of_fields hsign hbiased hfraction
  · have hm' : ¬ 0 < (Binary.ofFloat y).mantissa := by
      intro hm'
      rw [shortest_of_zero (Nat.eq_zero_of_not_pos hm)] at hvalue
      exact ((rounds_shortest_ofFloat hm').pos hm').ne hvalue
    obtain ⟨hbiased, hfraction⟩ := mantissa_eq_zero_iff.1 (Nat.eq_zero_of_not_pos hm)
    obtain ⟨hbiased', hfraction'⟩ := mantissa_eq_zero_iff.1 (Nat.eq_zero_of_not_pos hm')
    exact eq_of_fields hsign (hbiased.trans hbiased'.symm) (hfraction.trans hfraction'.symm)

end AgentSwarm.Decimal
