/-
**Shortest decimals read back.**

The search for the fewest digits compares natural numbers only.  Over the rational numbers its
comparisons say what they mean: a decimal covers a binary number when it lies between the midpoints
to the neighbours of that number, and on a midpoint only if the mantissa is even.

The search starts at a power of ten that is not above the number, so the grid that is finer by
sixteen places has a spacing below the unit in the last place of the number.  One of the two
neighbours on that grid is then closer than half a unit; hence the search ends with a decimal that
covers the number, whatever the size of the number is.

Main definitions:

* `AgentSwarm.Decimal.Binary.value`, `AgentSwarm.Decimal.Digits.value` — the numbers;
* `AgentSwarm.Decimal.Binary.Rounds` — a rational number that rounds to a binary number.

Main results:

* `AgentSwarm.Decimal.Binary.covers_iff` — the test of the search is rounding;
* `AgentSwarm.Decimal.Binary.pow_leading_le` — the search starts below the number;
* `AgentSwarm.Decimal.Binary.rounds_shortest` — **the shortest decimal rounds to the number**.
-/

import AgentSwarm.Decimal.Shortest
import Mathlib.Algebra.Order.Field.Power
import Mathlib.Algebra.Order.Floor.Semifield
import Mathlib.Data.Rat.Floor
import Mathlib.Tactic.Linarith
import Mathlib.Tactic.NormNum
import Mathlib.Tactic.Positivity
import Mathlib.Tactic.Ring
import Mathlib.Tactic.FieldSimp

set_option relaxedAutoImplicit false
set_option autoImplicit false

namespace AgentSwarm.Decimal

/-! ### Values -/

/-- The number that digits stand for. -/
def Digits.value (d : Digits) : ℚ := d.digits * 10 ^ d.exponent

/-- The number that a mantissa and an exponent stand for. -/
def Binary.value (b : Binary) : ℚ := b.mantissa * 2 ^ b.exponent

/-! ### Comparisons -/

theorem scaled_snd_pos {base : ℕ} (hbase : 0 < base) (n : ℕ) (e : ℤ) :
    0 < (scaled base n e).2 := by
  unfold scaled
  split
  · exact one_pos
  · exact Nat.pow_pos hbase

/-- A scaled number is a fraction. -/
theorem scaled_eq {base : ℕ} (hbase : 0 < base) (n : ℕ) (e : ℤ) :
    ((scaled base n e).1 : ℚ) / (scaled base n e).2 = n * (base : ℚ) ^ e := by
  have hne : (base : ℚ) ≠ 0 := Nat.cast_ne_zero.2 hbase.ne'
  unfold scaled
  split
  next h =>
      obtain ⟨k, rfl⟩ := Int.eq_ofNat_of_zero_le h
      simp
  next h =>
      obtain ⟨k, hk⟩ := Int.eq_ofNat_of_zero_le (by omega : 0 ≤ -e)
      obtain rfl : e = -(k : ℤ) := by omega
      simp [zpow_neg, div_eq_mul_inv]

/-- A decimal number is a fraction. -/
theorem decimal_eq_div (a : ℕ) (e : ℤ) :
    (a : ℚ) * 10 ^ e = (scaled 10 a e).1 / (scaled 10 a e).2 := by
  simpa using (scaled_eq (by norm_num : 0 < 10) a e).symm

/-- A binary number is a fraction. -/
theorem binary_eq_div (n : ℕ) (q : ℤ) :
    (n : ℚ) * 2 ^ q = (scaled 2 n q).1 / (scaled 2 n q).2 := by
  simpa using (scaled_eq (by norm_num : 0 < 2) n q).symm

theorem decimalBelow_iff {a n : ℕ} {e q : ℤ} :
    decimalBelow a e n q = true ↔ (a : ℚ) * 10 ^ e < n * 2 ^ q := by
  have hten : (0 : ℚ) < (scaled 10 a e).2 := Nat.cast_pos.2 (scaled_snd_pos (by norm_num) a e)
  have htwo : (0 : ℚ) < (scaled 2 n q).2 := Nat.cast_pos.2 (scaled_snd_pos (by norm_num) n q)
  rw [decimal_eq_div, binary_eq_div, div_lt_div_iff₀ hten htwo, decimalBelow, decide_eq_true_eq]
  norm_cast

theorem decimalEqual_iff {a n : ℕ} {e q : ℤ} :
    decimalEqual a e n q = true ↔ (a : ℚ) * 10 ^ e = n * 2 ^ q := by
  have hten : ((scaled 10 a e).2 : ℚ) ≠ 0 := Nat.cast_ne_zero.2 (scaled_snd_pos (by norm_num) a e).ne'
  have htwo : ((scaled 2 n q).2 : ℚ) ≠ 0 := Nat.cast_ne_zero.2 (scaled_snd_pos (by norm_num) n q).ne'
  rw [decimal_eq_div, binary_eq_div, div_eq_div_iff hten htwo, decimalEqual, beq_iff_eq]
  norm_cast

namespace Binary

variable {b : Binary} {a : ℕ} {e : ℤ}

/-! ### Rounding -/

/-- How far below the number the midpoint to its neighbour is, in units in the last place. -/
def gapBelow (b : Binary) : ℚ := if b.narrowBelow then 1 / 4 else 1 / 2

/-- The midpoint to the neighbour below. -/
def lower (b : Binary) : ℚ := (b.mantissa - b.gapBelow) * 2 ^ b.exponent

/-- The midpoint to the neighbour above. -/
def upper (b : Binary) : ℚ := (b.mantissa + 1 / 2) * 2 ^ b.exponent

/-- The number is the nearest to `x`, or one of the two nearest and has an even mantissa. -/
structure Rounds (b : Binary) (x : ℚ) : Prop where
  lower_le : b.lower ≤ x
  le_upper : x ≤ b.upper
  /-- Midpoints go to the even mantissa. -/
  even_of_eq (h : x = b.lower ∨ x = b.upper) : b.mantissa % 2 = 0

theorem Rounds.of_between {x : ℚ} (hlower : b.lower < x) (hupper : x < b.upper) : b.Rounds x where
  lower_le := hlower.le
  le_upper := hupper.le
  even_of_eq h := by
    rcases h with rfl | rfl
    · exact absurd hlower (lt_irrefl _)
    · exact absurd hupper (lt_irrefl _)

/-- **The test of the search is rounding.** -/
theorem covers_iff (hm : 0 < b.mantissa) :
    b.covers a e = true ↔ b.Rounds (a * 10 ^ e) := by
  have hquarter : (2 : ℚ) ^ (b.exponent - 2) = 2 ^ b.exponent / 4 := by
    rw [zpow_sub₀ (by norm_num)]
    norm_num
  have hlower : ((b.interval.1 : ℕ) : ℚ) * 2 ^ (b.exponent - 2) = b.lower := by
    have hle : (if b.narrowBelow then 1 else 2) ≤ 4 * b.mantissa := by split <;> omega
    rw [hquarter, interval, lower, gapBelow]
    simp only [Nat.cast_sub hle]
    split <;> push_cast <;> ring
  have hupper : ((b.interval.2.2 : ℕ) : ℚ) * 2 ^ (b.exponent - 2) = b.upper := by
    rw [hquarter, interval, upper]
    push_cast
    ring
  have hbelow : decimalBelow a e b.interval.1 (b.exponent - 2) = true ↔
      (a : ℚ) * 10 ^ e < b.lower := by rw [decimalBelow_iff, hlower]
  have hlow : decimalEqual a e b.interval.1 (b.exponent - 2) = true ↔
      (a : ℚ) * 10 ^ e = b.lower := by rw [decimalEqual_iff, hlower]
  have habove : decimalBelow a e b.interval.2.2 (b.exponent - 2) = true ↔
      (a : ℚ) * 10 ^ e < b.upper := by rw [decimalBelow_iff, hupper]
  have hhigh : decimalEqual a e b.interval.2.2 (b.exponent - 2) = true ↔
      (a : ℚ) * 10 ^ e = b.upper := by rw [decimalEqual_iff, hupper]
  have hcovers : b.covers a e = true ↔
      (¬ (a : ℚ) * 10 ^ e < b.lower ∧ (b.mantissa % 2 = 0 ∨ ¬ (a : ℚ) * 10 ^ e = b.lower)) ∧
        ((a : ℚ) * 10 ^ e < b.upper ∨ b.mantissa % 2 = 0 ∧ (a : ℚ) * 10 ^ e = b.upper) := by
    rw [← hbelow, ← hlow, ← habove, ← hhigh]
    simp [covers]
  rw [hcovers]
  constructor
  · rintro ⟨⟨hle, hlow⟩, hup⟩
    refine ⟨not_lt.1 hle, hup.elim le_of_lt fun h => h.2.le, ?_⟩
    rintro (heq | heq)
    · exact hlow.resolve_right fun hne => hne heq
    · exact hup.elim (fun hlt => absurd heq hlt.ne) fun h => h.1
  · rintro ⟨hle, hup, heven⟩
    refine ⟨⟨not_lt.2 hle, ?_⟩, ?_⟩
    · by_cases heq : (a : ℚ) * 10 ^ e = b.lower
      · exact .inl (heven (.inl heq))
      · exact .inr heq
    · rcases hup.lt_or_eq with hlt | heq
      · exact .inl hlt
      · exact .inr ⟨heven (.inr heq), heq⟩

/-! ### The neighbours on a grid -/

/-- The grid point below is the integral part. -/
theorem floorAt_eq (b : Binary) (e : ℤ) : b.floorAt e = ⌊b.value / 10 ^ e⌋₊ := by
  have hn := scaled_eq (by norm_num : 0 < 2) b.mantissa b.exponent
  have hu := scaled_eq (by norm_num : 0 < 10) 1 e
  push_cast at hn hu
  rw [one_mul] at hu
  rw [value, ← hn, ← hu, div_div_div_eq, floorAt]
  dsimp only
  rw [← Nat.floor_div_eq_div (K := ℚ)]
  push_cast
  rfl

theorem floorAt_mul_le (b : Binary) (e : ℤ) : (b.floorAt e : ℚ) * 10 ^ e ≤ b.value := by
  have hpow : (0 : ℚ) < 10 ^ e := by positivity
  have hvalue : 0 ≤ b.value := by unfold value; positivity
  rw [floorAt_eq, ← le_div_iff₀ hpow]
  exact Nat.floor_le (div_nonneg hvalue hpow.le)

theorem lt_floorAt_add_one_mul (b : Binary) (e : ℤ) :
    b.value < ((b.floorAt e + 1 : ℕ) : ℚ) * 10 ^ e := by
  have hpow : (0 : ℚ) < 10 ^ e := by positivity
  rw [floorAt_eq, ← div_lt_iff₀ hpow]
  exact_mod_cast Nat.lt_floor_add_one _

/-- A grid has a point that is not above the number when its spacing is not. -/
theorem floorAt_pos (h : (10 : ℚ) ^ e ≤ b.value) : 0 < b.floorAt e := by
  have hpow : (0 : ℚ) < 10 ^ e := by positivity
  rw [floorAt_eq, Nat.floor_pos, one_le_div hpow]
  exact h

theorem pow_le_of_floorAt (h : b.floorAt e ≠ 0) : (10 : ℚ) ^ e ≤ b.value := by
  have hone : (1 : ℚ) ≤ b.floorAt e := Nat.one_le_cast.2 (Nat.one_le_iff_ne_zero.2 h)
  have hpow : (0 : ℚ) < 10 ^ e := by positivity
  exact (le_mul_of_one_le_left hpow.le hone).trans (b.floorAt_mul_le e)

/-! ### The first power of ten -/

/-- The number is at least the power of two of its first bit. -/
theorem pow_log2_le (hm : 0 < b.mantissa) :
    (2 : ℚ) ^ (b.exponent + (Nat.log2 b.mantissa : ℤ)) ≤ b.value := by
  have hlog : ((2 ^ Nat.log2 b.mantissa : ℕ) : ℚ) ≤ b.mantissa :=
    Nat.cast_le.2 (Nat.log2_self_le hm.ne')
  rw [zpow_add₀ (by norm_num), zpow_natCast, mul_comm, value]
  push_cast at hlog
  gcongr

/-- Three decimal places are less than ten binary ones. -/
theorem ten_pow_le_two_pow {e bits : ℤ} (hbits : 0 ≤ bits) (h : 10 * e ≤ 3 * bits) :
    (10 : ℚ) ^ e ≤ 2 ^ bits := by
  refine le_of_pow_le_pow_left₀ (n := 10) (by norm_num) (by positivity) ?_
  calc ((10 : ℚ) ^ e) ^ 10 = 10 ^ (10 * e) := by rw [← zpow_natCast, ← zpow_mul, mul_comm]; rfl
    _ ≤ 10 ^ (3 * bits) := zpow_le_zpow_right₀ (by norm_num) h
    _ = (10 ^ (3 : ℤ)) ^ bits := zpow_mul _ _ _
    _ ≤ (2 ^ (10 : ℤ)) ^ bits := zpow_le_zpow_left₀ hbits (by norm_num) (by norm_num)
    _ = (2 ^ bits) ^ 10 := by rw [← zpow_natCast, ← zpow_mul, ← zpow_mul, mul_comm]; rfl

/-- Thirty-one decimal places are more than a hundred binary ones. -/
theorem ten_pow_le_two_pow_neg {e bits : ℤ} (hbits : bits ≤ 0) (h : 100 * e ≤ 31 * bits) :
    (10 : ℚ) ^ e ≤ 2 ^ bits := by
  obtain ⟨n, rfl⟩ : ∃ n : ℕ, bits = -n := ⟨bits.natAbs, by omega⟩
  refine le_of_pow_le_pow_left₀ (n := 100) (by norm_num) (by positivity) ?_
  calc ((10 : ℚ) ^ e) ^ 100 = 10 ^ (100 * e) := by rw [← zpow_natCast, ← zpow_mul, mul_comm]; rfl
    _ ≤ 10 ^ (31 * -(n : ℤ)) := zpow_le_zpow_right₀ (by norm_num) h
    _ = ((10 ^ 31) ^ n)⁻¹ := by
        rw [mul_neg, zpow_neg, zpow_mul, zpow_natCast]
        rfl
    _ ≤ ((2 ^ 100) ^ n)⁻¹ := by gcongr; norm_num
    _ = (2 ^ (-(n : ℤ))) ^ 100 := by
        rw [zpow_neg, zpow_natCast, inv_pow, ← pow_mul, ← pow_mul, mul_comm]

/-- The search for the first digit starts below the number. -/
theorem pow_leadingFloor_le (hm : 0 < b.mantissa) : (10 : ℚ) ^ b.leadingFloor ≤ b.value := by
  refine le_trans ?_ (pow_log2_le hm)
  unfold leadingFloor
  dsimp only
  split
  next h => exact ten_pow_le_two_pow h (by omega)
  next h => exact ten_pow_le_two_pow_neg (by omega) (by omega)

/-- **The exponent of the first digit is not too great**, and the search for it never goes beyond
the number, however long it takes. -/
theorem pow_leading_le {fuel : ℕ} (h : (10 : ℚ) ^ e ≤ b.value) :
    (10 : ℚ) ^ b.leading fuel e ≤ b.value := by
  induction fuel generalizing e with
  | zero => exact h
  | succ fuel ih =>
      rw [leading]
      split
      next => exact h
      next hfloor => exact ih (pow_le_of_floorAt hfloor)

/-! ### The search -/

/-- A point on a grid that is found rounds to the number. -/
theorem rounds_of_onGrid {d : Digits} (hm : 0 < b.mantissa) (h : b.onGrid e = some d) :
    b.Rounds d.value := by
  unfold onGrid at h
  dsimp only at h
  have hfound : b.covers d.digits d.exponent = true := by
    split at h
    next hlow hhigh =>
        rw [Bool.and_eq_true] at hlow
        obtain rfl := Option.some.inj h
        dsimp only
        split
        · exact hhigh
        · exact hlow.1
    next hlow _ =>
        rw [Bool.and_eq_true] at hlow
        obtain rfl := Option.some.inj h
        exact hlow.1
    next _ hhigh =>
        obtain rfl := Option.some.inj h
        exact hhigh
    next => cases h
  exact (covers_iff hm).1 hfound

/-- **A grid finer than the unit in the last place has a point that rounds to the number.**  The
nearer neighbour is closer than half a unit; and where the neighbour below is only half as far away,
the grid is so fine that the point above will do. -/
theorem exists_onGrid (hm : 0 < b.mantissa) (hle : (10 : ℚ) ^ e ≤ b.value)
    (hfine : (10 : ℚ) ^ e < 2 ^ b.exponent)
    (hnarrow : b.narrowBelow = true → (10 : ℚ) ^ e < 2 ^ b.exponent / 2) :
    ∃ d, b.onGrid e = some d := by
  have hunit : (0 : ℚ) < 2 ^ b.exponent := by positivity
  have hlow := b.floorAt_mul_le e
  have hhigh := b.lt_floorAt_add_one_mul e
  have hgap : 0 < b.gapBelow := by
    unfold gapBelow
    split <;> norm_num
  have hlower : b.lower = b.value - b.gapBelow * 2 ^ b.exponent := by rw [lower, value, sub_mul]
  have hupper : b.upper = b.value + 2 ^ b.exponent / 2 := by
    rw [upper, value, add_mul, one_div, div_eq_inv_mul]
  have hbelow : b.lower < b.value := by
    rw [hlower]
    linarith [mul_pos hgap hunit]
  have hfound : b.covers (b.floorAt e) e = true ∨ b.covers (b.floorAt e + 1) e = true := by
    rw [covers_iff hm, covers_iff hm]
    push_cast at hhigh ⊢
    by_cases hnear : b.narrowBelow = false ∧ b.value - b.floorAt e * 10 ^ e < 2 ^ b.exponent / 2
    · refine .inl (.of_between ?_ ?_)
      · rw [hlower, gapBelow, hnear.1]
        simp only [Bool.false_eq_true, if_false]
        linarith [hnear.2]
      · rw [hupper]
        linarith
    · refine .inr (.of_between (hbelow.trans hhigh) ?_)
      rw [hupper]
      rcases Classical.not_and_iff_not_or_not.1 hnear with hwide | hfar
      · have := hnarrow (by simpa using hwide)
        linarith
      · linarith
  have hpos : (b.floorAt e != 0) = true := by simpa using (floorAt_pos hle).ne'
  unfold onGrid
  dsimp only
  rw [hpos, Bool.and_true]
  rcases hfound with h | h <;> rw [h]
  · cases b.covers (b.floorAt e + 1) e <;> exact ⟨_, rfl⟩
  · cases b.covers (b.floorAt e) e <;> exact ⟨_, rfl⟩

/-- A search that reaches a grid with a point ends with digits that round to the number. -/
theorem rounds_search (hm : 0 < b.mantissa) {fuel : ℕ}
    (h : ∃ k < fuel, ∃ d, b.onGrid (e - k) = some d) : b.Rounds (b.search fuel e).value := by
  induction fuel generalizing e with
  | zero =>
      obtain ⟨k, hk, -⟩ := h
      exact absurd hk (Nat.not_lt_zero k)
  | succ fuel ih =>
      rw [search]
      split
      next d hd => exact rounds_of_onGrid hm hd
      next hnone =>
          obtain ⟨k, hk, d, hd⟩ := h
          cases k with
          | zero =>
              rw [Nat.cast_zero, sub_zero, hnone] at hd
              cases hd
          | succ k =>
              refine ih ⟨k, by omega, d, ?_⟩
              rw [← hd, Nat.cast_succ]
              congr 1
              ring

end Binary

/-- Zeros at the end do not change the number. -/
theorem Digits.value_strip (fuel : ℕ) (d : Digits) : (d.strip fuel).value = d.value := by
  induction fuel generalizing d with
  | zero => rfl
  | succ fuel ih =>
      rw [strip]
      split
      next h =>
          have hten : ((10 * (d.digits / 10) : ℕ) : ℚ) = d.digits := by
            rw [Nat.mul_div_cancel' (Nat.dvd_of_mod_eq_zero h.2)]
          rw [ih, value, value, ← hten, zpow_add_one₀ (by norm_num)]
          push_cast
          ring
      next => rfl

/-- **The shortest decimal rounds to the number**, for mantissas of up to sixteen digits. -/
theorem Binary.rounds_shortest {b : Binary} (hm : 0 < b.mantissa) (hsize : b.mantissa < 10 ^ 16)
    (hnarrow : b.narrowBelow = true → 2 * b.mantissa < 10 ^ 16) : b.Rounds b.shortest.value := by
  have htop : (10 : ℚ) ^ b.leading 40 b.leadingFloor ≤ b.value :=
    pow_leading_le (pow_leadingFloor_le hm)
  have hunit : (0 : ℚ) < 2 ^ b.exponent := by positivity
  rw [shortest, if_neg hm.ne']
  dsimp only
  rw [Digits.value_strip]
  refine rounds_search hm ⟨16, by norm_num, ?_⟩
  -- sixteen places below the first digit the spacing is less than a unit in the last place
  have hgrid : (10 : ℚ) ^ (b.leading 40 b.leadingFloor - (16 : ℕ)) * 10 ^ 16 =
      10 ^ b.leading 40 b.leadingFloor := by
    rw [zpow_sub₀ (by norm_num), zpow_natCast, div_mul_cancel₀ _ (by norm_num)]
  have hspace : (0 : ℚ) < 10 ^ (b.leading 40 b.leadingFloor - (16 : ℕ)) := by positivity
  have hmantissa : (b.mantissa : ℚ) < 10 ^ 16 := by exact_mod_cast hsize
  rw [← hgrid, value] at htop
  refine exists_onGrid hm ?_ ?_ fun h => ?_
  · rw [value]
    refine le_trans ?_ htop
    exact le_mul_of_one_le_right hspace.le (by norm_num)
  · linarith [mul_lt_mul_of_pos_right hmantissa hunit]
  · have hhalf : 2 * (b.mantissa : ℚ) < 10 ^ 16 := by exact_mod_cast hnarrow h
    rw [lt_div_iff₀ two_pos]
    linarith [mul_lt_mul_of_pos_right hhalf hunit]

end AgentSwarm.Decimal
