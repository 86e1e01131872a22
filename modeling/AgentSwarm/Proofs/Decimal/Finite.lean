/-
**Numbers that are read are finite.**

A number is read as a word times a power of ten, and the readers give up where the product leaves the
range of doubles.  So no number that was read is infinite, and none is undefined: a product of finite
numbers is finite or infinite, and dividing by a power of ten leads towards zero.  Doubles are
followed through the operations in unpacked form, as a mantissa times a power of two, where only the
exponent has to be watched: rounding adds at most one to the place of the leading digit.

Main definitions:

* `AgentSwarm.Decimal.Below`, `AgentSwarm.Decimal.Within` — the exponent of an unpacked number has a
  bound, before and after it was packed;
* `AgentSwarm.Decimal.FromTwo` — an unpacked number that is at least two.

Main results:

* `AgentSwarm.Decimal.below_round` — rounding keeps a bound of the exponent;
* `AgentSwarm.Decimal.isFinite_mul`, `AgentSwarm.Decimal.isFinite_div_power`,
  `AgentSwarm.Decimal.isFinite_neg` — the operations of the readers keep to finite numbers;
* `AgentSwarm.Decimal.fromTwo_power` — the powers of ten are two or more;
* `AgentSwarm.Decimal.isFinite_ofInt` — **integers of 64 bits are finite doubles**.
-/

import Mathlib

set_option relaxedAutoImplicit false
set_option autoImplicit false

namespace AgentSwarm.Decimal

open Float.Model UnpackedFloat

/-! ### Unpacked numbers -/

section Unpacked

variable {b e : ℤ} {m n : ℕ} {s : Sign} {a : Accuracy} {u v : UnpackedFloat}

/-- The exponent is at most `b`. -/
def Below (b : ℤ) : UnpackedFloat → Prop
  | .zero _ => True
  | .finite _ _ e _ => e ≤ b
  | _ => False

/-- The exponent is at most `b`, and the mantissa has at most 53 bits. -/
def Within (b : ℤ) : UnpackedFloat → Prop
  | .zero _ => True
  | .finite _ m e _ => m < 2 ^ 53 ∧ e ≤ b
  | _ => False

/-- The magnitude is two or more. -/
def FromTwo : UnpackedFloat → Prop
  | .finite _ m e _ => m < 2 ^ 53 ∧ 2 ≤ totalExponent m e ∧ e ≤ 971
  | _ => False

instance (b : ℤ) (u : UnpackedFloat) : Decidable (Within b u) :=
  match u with
  | .zero _ => isTrue trivial
  | .finite _ m e _ => inferInstanceAs (Decidable (m < 2 ^ 53 ∧ e ≤ b))
  | .infinity _ | .notANumber => isFalse id

instance (u : UnpackedFloat) : Decidable (FromTwo u) :=
  match u with
  | .finite _ m e _ => inferInstanceAs (Decidable (m < 2 ^ 53 ∧ 2 ≤ totalExponent m e ∧ e ≤ 971))
  | .zero _ | .infinity _ | .notANumber => isFalse id

theorem Within.isFinite (h : Within b u) : u.isFinite = true := by
  cases u with
  | zero | finite => rfl
  | infinity | notANumber => exact h.elim

theorem FromTwo.within (h : FromTwo u) : Within 971 u := by
  cases u with
  | finite => exact ⟨h.1, h.2.2⟩
  | zero | infinity | notANumber => exact h.elim

/-! ### Packing -/

theorem exponentBias_eq : (Format.binary64.exponentBias : ℤ) = 1023 := by decide

theorem mantissaWidth_eq : (Format.binary64.mantissaBitsWithoutImplicit : ℤ) = 52 := by decide

/-- What a packed number that is finite unpacks to. -/
theorem within_unpack {bits : BitVec Format.binary64.numBits} (hlow : -1074 ≤ b)
    (hfinite : unpackExponent bits ≠ -1#_) (h : ((unpackExponent bits).toNat : ℤ) ≤ b + 1075) :
    Within b (UnpackedFloat.unpack Format.binary64 bits) := by
  have hmantissa : (unpackMantissa bits).toNat < 2 ^ 52 := (unpackMantissa bits).isLt
  simp only [UnpackedFloat.unpack, if_neg hfinite, exponentBias_eq]
  split
  next hzero =>
      split
      next => trivial
      next =>
          have hexponent : (unpackExponent bits).toNat = 0 := by
            rw [hzero]
            rfl
          exact ⟨by omega, by omega⟩
  next =>
      refine ⟨?_, by omega⟩
      rw [BitVec.toNat_append, ← Nat.shiftLeft_add_eq_or_of_lt hmantissa]
      simp
      omega

/-- A number that is finite in the format of doubles. -/
theorem within_of_isFinite {bits : BitVec Format.binary64.numBits}
    (h : (UnpackedFloat.unpack Format.binary64 bits).isFinite = true) :
    Within 971 (UnpackedFloat.unpack Format.binary64 bits) := by
  have hfinite : unpackExponent bits ≠ -1#_ := by
    intro hlast
    simp only [UnpackedFloat.unpack, if_pos hlast] at h
    split at h <;> cases h
  refine within_unpack (by decide) hfinite ?_
  have hlt : (unpackExponent bits).toNat < 2048 := (unpackExponent bits).isLt
  have hlast : (-1#_ : BitVec Format.binary64.exponentBits).toNat = 2047 := by decide
  have hne : (unpackExponent bits).toNat ≠ 2047 := fun heq =>
    hfinite (BitVec.eq_of_toNat_eq (heq.trans hlast.symm))
  omega

/-- Packing a number without overflow. -/
theorem within_unpack_pack (hlow : -1074 ≤ b) (hhigh : b ≤ 971) (h : Below b u) :
    Within b (UnpackedFloat.unpack Format.binary64 (UnpackedFloat.pack Format.binary64 u)) := by
  cases u with
  | infinity | notANumber => exact h.elim
  | zero s => simp [UnpackedFloat.pack, UnpackedFloat.unpack, packedZero, Within]
  | finite s m e hm =>
      have he : e ≤ b := h
      have hlast : (-1#_ : BitVec Format.binary64.exponentBits).toNat = 2047 := by decide
      simp only [UnpackedFloat.pack, exponentBias_eq]
      generalize hbiased : (e + 1023 + 52).toNat = biased
      rw [if_neg (by simp; omega)]
      -- the exponent is stored, or it is zero and the mantissa has no leading one
      split
      · refine within_unpack hlow ?_ ?_
        · rw [unpackExponent_packComponents]
          intro heq
          have := congrArg BitVec.toNat heq
          rw [hlast, BitVec.toNat_ofNat] at this
          simp at this
          omega
        · rw [unpackExponent_packComponents]
          simp
          omega
      · refine within_unpack hlow ?_ ?_
        · rw [unpackExponent_packComponents]
          decide
        · rw [unpackExponent_packComponents]
          simp
          omega

/-- What is packed without overflow stays finite. -/
theorem isFinite_unpack_pack (hu : u.isFinite = true)
    (h : (UnpackedFloat.unpack Format.binary64
      (UnpackedFloat.pack Format.binary64 u)).isInf = false) :
    (UnpackedFloat.unpack Format.binary64
      (UnpackedFloat.pack Format.binary64 u)).isFinite = true := by
  cases u with
  | infinity | notANumber => cases hu
  | zero s =>
      exact Within.isFinite (b := 971) (within_unpack_pack (by decide) (by decide) True.intro)
  | finite s m e hm =>
      by_cases he : e ≤ 971
      · exact Within.isFinite (b := 971) (within_unpack_pack (by decide) (by decide) he)
      · have hover : 2 ^ Format.binary64.exponentBits ≤ (e + Format.binary64.exponentBias +
            Format.binary64.mantissaBitsWithoutImplicit).toNat + 1 := by
          rw [exponentBias_eq, mantissaWidth_eq]
          simp
          omega
        rw [UnpackedFloat.pack, if_pos hover] at h
        simp [packedInfinity, UnpackedFloat.unpack, UnpackedFloat.isInf] at h

/-- A number with a leading one is packed as it is. -/
theorem fromTwo_unpack_pack {hm : 0 < m} (hlog : m.log2 = 52) (hlow : -51 ≤ e) (hhigh : e ≤ 971) :
    FromTwo (UnpackedFloat.unpack Format.binary64
      (UnpackedFloat.pack Format.binary64 (.finite s m e hm))) := by
  have hlast : (-1#_ : BitVec Format.binary64.exponentBits).toNat = 2047 := by decide
  have hmantissa := (Nat.log2_eq_iff hm.ne').1 hlog
  have hwidth : Format.binary64.mantissaBits = 53 := rfl
  simp only [UnpackedFloat.pack, exponentBias_eq]
  generalize hbiased : (e + 1023 + 52).toNat = biased
  rw [if_neg (by simp; omega), if_pos (by omega)]
  have hexponent : (BitVec.ofNat Format.binary64.exponentBits biased).toNat = biased := by
    rw [BitVec.toNat_ofNat]
    exact Nat.mod_eq_of_lt (by simp; omega)
  have hne : BitVec.ofNat Format.binary64.exponentBits biased ≠ -1#_ := by
    intro heq
    have := congrArg BitVec.toNat heq
    omega
  have hne' : BitVec.ofNat Format.binary64.exponentBits biased ≠ 0#_ := by
    intro heq
    have := congrArg BitVec.toNat heq
    rw [hexponent] at this
    simp at this
    omega
  simp only [UnpackedFloat.unpack, unpackExponent_packComponents, unpackMantissa_packComponents,
    if_neg hne, if_neg hne', exponentBias_eq, hexponent]
  have hvalue : (1#1 ++ BitVec.ofNat Format.binary64.mantissaBitsWithoutImplicit m).toNat = m := by
    rw [BitVec.toNat_append, ← Nat.shiftLeft_add_eq_or_of_lt (BitVec.isLt _), BitVec.toNat_ofNat]
    simp
    omega
  refine ⟨by rw [hvalue]; omega, ?_, by omega⟩
  rw [hvalue, totalExponent, hlog]
  omega

/-! ### Rounding -/

theorem log2_mono (h : m ≤ n) : m.log2 ≤ n.log2 := by
  rw [Nat.log2_eq_log_two, Nat.log2_eq_log_two]
  exact Nat.log_mono_right h

theorem log2_div_pow (m k : ℕ) : (m / 2 ^ k).log2 = m.log2 - k := by
  rw [Nat.log2_eq_log_two, Nat.log2_eq_log_two, Nat.log_div_base_pow]

theorem log2_shiftLeft (h : m ≠ 0) (k : ℕ) : (m <<< k).log2 = m.log2 + k := by
  rw [Nat.shiftLeft_eq, Nat.log2_eq_log_two, Nat.log2_eq_log_two]
  induction k with
  | zero => simp
  | succ k ih =>
      rw [Nat.pow_succ, ← Nat.mul_assoc, Nat.log_mul_base (by decide) (by positivity), ih,
        Nat.add_assoc]

theorem log2_succ_le (m : ℕ) : (m + 1).log2 ≤ m.log2 + 1 := by
  rw [Nat.log2_eq_log_two, Nat.log2_eq_log_two]
  by_cases h : m = 0
  · simp [h]
  · rw [← Nat.log_mul_base (by decide) h]
    exact Nat.log_mono_right (by omega)

theorem log2_mul_le (m n : ℕ) : (m * n).log2 ≤ m.log2 + n.log2 + 1 := by
  by_cases h : m * n = 0
  · simp [h]
  · refine Nat.le_of_lt_succ ((Nat.log2_lt h).2 ?_)
    calc m * n < 2 ^ (m.log2 + 1) * 2 ^ (n.log2 + 1) :=
          Nat.mul_lt_mul'' Nat.lt_log2_self Nat.lt_log2_self
      _ = 2 ^ (m.log2 + n.log2 + 1 + 1) := by rw [← Nat.pow_add]; congr 1; omega

theorem log2_le_of_lt (h : m < 2 ^ 53) : m.log2 ≤ 52 := by
  by_cases hm : m = 0
  · simp [hm]
  · exact Nat.le_of_lt_succ ((Nat.log2_lt hm).2 h)

theorem log2_div_le (hn : 0 < n) (hq : m / n ≠ 0) : (m / n).log2 + n.log2 ≤ m.log2 := by
  have hm : m ≠ 0 := by
    rintro rfl
    simp at hq
  refine (Nat.le_log2 hm).2 ?_
  rw [Nat.pow_add]
  calc 2 ^ (m / n).log2 * 2 ^ n.log2 ≤ m / n * n :=
        Nat.mul_le_mul (Nat.log2_self_le hq) (Nat.log2_self_le hn.ne')
    _ ≤ m := Nat.div_mul_le_self m n

theorem mantissa_shiftRight (k : ℕ) (em : ExtendedMantissa) :
    (em >>> k).mantissa = em.mantissa / 2 ^ k := by
  show (k.repeat ExtendedMantissa.shiftRightOne em).mantissa = _
  induction k with
  | zero => simp [Nat.repeat]
  | succ k ih =>
      rw [Nat.repeat, ExtendedMantissa.shiftRightOne, ih, Nat.pow_succ, Nat.div_div_eq_div_mul]

theorem roundedMantissa_mem (em : ExtendedMantissa) :
    em.mantissa ≤ em.roundedMantissa ∧ em.roundedMantissa ≤ em.mantissa + 1 := by
  rcases em with ⟨m, _ | _, _ | _⟩ <;>
    simp [ExtendedMantissa.roundedMantissa, ExtendedMantissa.accuracy, Accuracy.roundToNearestEven]
  omega

theorem mantissa_ofMantissaAndAccuracy (m : ℕ) (a : Accuracy) :
    (ExtendedMantissa.ofMantissaAndAccuracy m a).mantissa = m := by
  unfold ExtendedMantissa.ofMantissaAndAccuracy
  split <;> rfl

/-- Shifting leaves no more than 53 bits and an exponent that doubles have. -/
theorem exponent_shift (m : ℕ) (e : ℤ) (a : Accuracy) :
    (shiftToTargetExponent Format.binary64 m e a).2 =
      max e (max (totalExponent m e - 53) (-1074)) := by
  have hbits : (Format.binary64.mantissaBits : ℤ) = 53 := by decide
  have hleast : Format.binary64.minExponent = -1074 := by decide
  simp only [shiftToTargetExponent, shiftToExponent, Format.targetExponent, hbits, hleast]
  omega

theorem mantissa_shift (m : ℕ) (e : ℤ) (a : Accuracy) :
    (shiftToTargetExponent Format.binary64 m e a).1.mantissa =
      m / 2 ^ ((shiftToTargetExponent Format.binary64 m e a).2 - e).toNat := by
  simp only [shiftToTargetExponent, shiftToExponent, mantissa_shiftRight,
    mantissa_ofMantissaAndAccuracy, add_sub_cancel_left, Int.toNat_natCast]

/-- **Rounding keeps a bound of the exponent.** -/
theorem below_round (hlow : -1074 ≤ b) (he : e ≤ b) (h : totalExponent m e ≤ b + 52) :
    Below b (roundWithAccuracy Format.binary64 s m e a) := by
  have hexponent := exponent_shift m e a
  have hmantissa := mantissa_shift m e a
  unfold roundWithAccuracy
  dsimp only
  generalize shiftToTargetExponent Format.binary64 m e a = shifted at hexponent hmantissa ⊢
  have hlog := (log2_mono (roundedMantissa_mem shifted.1).2).trans (log2_succ_le _)
  rw [hmantissa, log2_div_pow] at hlog
  split
  · trivial
  · show _ ≤ b
    rw [exponent_shift]
    unfold totalExponent at *
    omega

/-- A number with enough digits is rounded to one with a leading one. -/
theorem exists_round_eq (hm : 52 ≤ m.log2) (hlow : -1021 ≤ totalExponent m e) :
    ∃ m' e' h, roundWithAccuracy Format.binary64 s m e a = .finite s m' e' h ∧ m'.log2 = 52 ∧
      totalExponent m e - 53 ≤ e' ∧ e' ≤ totalExponent m e - 52 := by
  have hexponent := exponent_shift m e a
  have hmantissa := mantissa_shift m e a
  unfold roundWithAccuracy
  dsimp only
  generalize shiftToTargetExponent Format.binary64 m e a = shifted at hexponent hmantissa ⊢
  obtain ⟨hge, hle⟩ := roundedMantissa_mem shifted.1
  generalize shifted.1.roundedMantissa = r at hge hle ⊢
  have hfirst : shifted.1.mantissa.log2 = 52 := by
    rw [hmantissa, log2_div_pow]
    unfold totalExponent at *
    omega
  have hmore := log2_mono hge
  have hless := (log2_mono hle).trans (log2_succ_le _)
  have hlast : (shiftToTargetExponent Format.binary64 r shifted.2 .exact).1.mantissa.log2 = 52 := by
    rw [mantissa_shift, log2_div_pow, exponent_shift]
    unfold totalExponent at *
    omega
  have hne : (shiftToTargetExponent Format.binary64 r shifted.2 .exact).1.mantissa ≠ 0 := by
    intro hzero
    rw [hzero] at hlast
    cases hlast
  refine ⟨_, _, Nat.pos_of_ne_zero hne, dif_neg hne, hlast, ?_⟩
  rw [exponent_shift]
  unfold totalExponent at *
  omega

/-! ### Operations -/

theorem isFinite_round : (roundWithAccuracy Format.binary64 s m e a).isFinite = true := by
  unfold roundWithAccuracy
  dsimp only
  split <;> rfl

/-- A product of finite numbers is a finite number before it is packed. -/
theorem isFinite_mul_unpacked {c : ℤ} (hu : Within b u) (hv : Within c v) :
    (UnpackedFloat.mul Format.binary64 u v).isFinite = true := by
  cases u with
  | infinity | notANumber => exact hu.elim
  | zero =>
      cases v with
      | infinity | notANumber => exact hv.elim
      | zero | finite => rfl
  | finite =>
      cases v with
      | infinity | notANumber => exact hv.elim
      | zero => rfl
      | finite => exact isFinite_round

theorem below_mul {c : ℤ} (hu : Within b u) (hv : Within c v) (hlow : -1074 ≤ b + c + 54) :
    Below (b + c + 54) (UnpackedFloat.mul Format.binary64 u v) := by
  cases u with
  | infinity | notANumber => exact hu.elim
  | zero =>
      cases v with
      | infinity | notANumber => exact hv.elim
      | zero | finite => trivial
  | finite s₁ m₁ e₁ =>
      cases v with
      | infinity | notANumber => exact hv.elim
      | zero => trivial
      | finite s₂ m₂ e₂ =>
          obtain ⟨hm₁, he₁⟩ := hu
          obtain ⟨hm₂, he₂⟩ := hv
          have hlog := log2_mul_le m₁ m₂
          have hlog₁ := log2_le_of_lt hm₁
          have hlog₂ := log2_le_of_lt hm₂
          refine below_round hlow (by omega) ?_
          unfold totalExponent
          omega

/-- Dividing by two or more leads towards zero. -/
theorem below_div (hu : Within 971 u) (hv : FromTwo v) :
    Below 971 (UnpackedFloat.div Format.binary64 u v) := by
  cases v with
  | zero | infinity | notANumber => exact hv.elim
  | finite s₂ m₂ e₂ hm₂ =>
      cases u with
      | infinity | notANumber => exact hu.elim
      | zero => trivial
      | finite s₁ m₁ e₁ hm₁ =>
          obtain ⟨hm, he⟩ := hu
          have htwo := hv.2.1
          have hlog := log2_le_of_lt hm
          have hbits : (Format.binary64.mantissaBits : ℤ) = 53 := by decide
          have hleast : Format.binary64.minExponent = -1074 := by decide
          simp only [UnpackedFloat.div, divCore, Format.targetExponent, hbits, hleast]
          generalize htarget :
            min (e₁ - e₂) (max (totalExponent m₁ e₁ - totalExponent m₂ e₂ - 53) (-1074)) = t
          have hquotient : ((m₁ <<< (e₁ - e₂ - t).toNat / m₂).log2 : ℤ) ≤
              max (m₁.log2 + (e₁ - e₂ - t) - m₂.log2) 0 := by
            by_cases hzero : m₁ <<< (e₁ - e₂ - t).toNat / m₂ = 0
            · simp [hzero]
            · have hle := log2_div_le hm₂ hzero
              rw [log2_shiftLeft hm₁.ne'] at hle
              omega
          unfold totalExponent at *
          refine below_round (by decide) (by omega) ?_
          unfold totalExponent
          omega

/-- An integer of 64 bits. -/
theorem below_ofNat (h : n < 2 ^ 64) : Below 13 (UnpackedFloat.ofNat Format.binary64 n) := by
  rw [UnpackedFloat.ofNat, UnpackedFloat.ofInt, UnpackedFloat.normalize]
  split
  next hneg => exact absurd (Int.compare_eq_lt.1 hneg) (by omega)
  next => trivial
  next hpos =>
      have hn : n ≠ 0 := by
        rintro rfl
        simp at hpos
      have hlog : n.log2 < 64 := (Nat.log2_lt hn).2 h
      have hbits : (Format.binary64.mantissaBits : ℤ) = 53 := by decide
      have hleast : Format.binary64.minExponent = -1074 := by decide
      rw [UnpackedFloat.round]
      simp only [decreaseExponent]
      refine below_round (by decide) (by omega) ?_
      simp only [Int.toNat_natCast, totalExponent, Format.targetExponent, hbits, hleast]
      rw [log2_shiftLeft hn]
      omega

end Unpacked

/-! ### Doubles -/

section Doubles

variable {x y : Float} {b : ℤ} {n k : ℕ}

theorem within_unpack_float (h : x.isFinite = true) : Within 971 x.toModel.unpack :=
  within_of_isFinite h

theorem isFinite_of_below {u : UnpackedFloat} (hlow : -1074 ≤ b) (hhigh : b ≤ 971)
    (h : Below b u) : (Float.ofModel (Float.Model.pack u)).isFinite = true :=
  (within_unpack_pack hlow hhigh h).isFinite

/-- A product of finite numbers is finite when it is not infinite. -/
theorem isFinite_mul (hx : x.isFinite = true) (hy : y.isFinite = true)
    (h : (x * y).isInf = false) : (x * y).isFinite = true :=
  isFinite_unpack_pack (isFinite_mul_unpacked (within_unpack_float hx) (within_unpack_float hy)) h

/-- A finite number divided by two or more is finite. -/
theorem isFinite_div (hx : x.isFinite = true) (hy : FromTwo y.toModel.unpack) :
    (x / y).isFinite = true :=
  isFinite_of_below (by decide) (by decide) (below_div (within_unpack_float hx) hy)

theorem isFinite_neg (hx : x.isFinite = true) : (-x).isFinite = true := by
  refine isFinite_of_below (b := 971) (by decide) (by decide) ?_
  have hu := within_unpack_float hx
  generalize x.toModel.unpack = u at hu
  cases u with
  | infinity | notANumber => exact hu.elim
  | zero => trivial
  | finite => exact hu.2

theorem within_toFloat (w : UInt64) : Within 13 w.toFloat.toModel.unpack :=
  within_unpack_pack (by decide) (by decide) (below_ofNat w.toNat_lt)

theorem isFinite_toFloat (w : UInt64) : w.toFloat.isFinite = true := (within_toFloat w).isFinite

/-- Powers of ten that doubles have are two or more. -/
theorem fromTwo_power (hk : k ≠ 0) (h : k ≤ 308) :
    FromTwo (Float.ofScientific 1 false k).toModel.unpack := by
  have hends : ∀ k < 309, k < 23 ∨ k = 308 → k ≠ 0 →
      FromTwo (Float.ofScientific 1 false k).toModel.unpack := by
    decide +kernel
  by_cases hend : k < 23 ∨ k = 308
  · exact hends k (by omega) hend hk
  have hexact : (Float.ofScientific 1 false k).toModel.unpack = UnpackedFloat.unpack Format.binary64
      (UnpackedFloat.pack Format.binary64 (UnpackedFloat.ofScientific Format.binary64 1 k)) := by
    rw [Float.ofScientific, dif_neg (by omega)]
    rfl
  have hlow : 2 ^ 1 ≤ 10 ^ k := by
    calc 2 ^ 1 ≤ 10 ^ 1 := by decide
      _ ≤ 10 ^ k := Nat.pow_le_pow_right (by decide) (by omega)
  have hne : 10 ^ k ≠ 0 := by positivity
  have hlog : 1 ≤ (10 ^ k).log2 := (Nat.le_log2 hne).2 hlow
  have hlog' : (10 ^ k).log2 < 1022 := by
    refine (Nat.log2_lt hne).2 ?_
    calc 10 ^ k ≤ 10 ^ 307 := Nat.pow_le_pow_right (by decide) (by omega)
      _ < 2 ^ 1022 := by decide +kernel
  have hmantissa : (1 <<< 53 * 10 ^ k).log2 = 53 + (10 ^ k).log2 := by
    rw [Nat.shiftLeft_eq, Nat.one_mul, Nat.mul_comm, ← Nat.shiftLeft_eq, log2_shiftLeft hne,
      Nat.add_comm]
  obtain ⟨m, e, hm, hround, hleading, he, he'⟩ := exists_round_eq (s := .positive * .positive)
    (a := .exact) (m := 1 <<< 53 * 10 ^ k) (e := -53 + 0) (by omega) (by unfold totalExponent; omega)
  have hscientific : UnpackedFloat.ofScientific Format.binary64 1 k =
      .finite (.positive * .positive) m e hm := by
    rw [UnpackedFloat.ofScientific, dif_neg (by decide), if_neg (by simp; omega),
      if_neg (by simp; omega), if_pos (by omega), ← hround]
    rfl
  rw [hexact, hscientific]
  unfold totalExponent at he he'
  exact fromTwo_unpack_pack hleading (by omega) (by omega)

/-- A finite number divided by a power of ten is finite. -/
theorem isFinite_div_power (hx : x.isFinite = true) (hk : k ≠ 0) (h : k ≤ 308) :
    (x / Float.ofScientific 1 false k).isFinite = true :=
  isFinite_div hx (fromTwo_power hk h)

theorem isFinite_power (h : k ≤ 308) : (Float.ofScientific 1 false k).isFinite = true := by
  by_cases hk : k = 0
  · subst hk
    decide +kernel
  · exact (fromTwo_power hk h).within.isFinite

/-- **Integers of 64 bits are finite doubles.** -/
theorem isFinite_ofNat (h : n < 2 ^ 64) : (Float.ofNat n).isFinite = true := by
  show (Float.ofScientific n false 0).isFinite = true
  by_cases hn : n < 2 ^ 53
  · have hone : Within (-52) (Float.ofBits 0x3FF0000000000000).toModel.unpack := by decide +kernel
    rw [Float.ofScientific, dif_pos ⟨hn, by decide⟩]
    exact isFinite_of_below (by decide) (by decide)
      (below_mul (within_toFloat n.toUInt64) hone (by decide))
  · have hne : n ≠ 0 := by omega
    rw [Float.ofScientific, dif_neg (by omega)]
    refine isFinite_of_below (b := 971) (by decide) (by decide) ?_
    have hlog : n.log2 < 64 := (Nat.log2_lt hne).2 h
    have hmantissa : (n <<< Format.binary64.mantissaBits * 10 ^ (0 : ℤ).toNat).log2 = n.log2 + 53 := by
      rw [Int.toNat_zero, Nat.pow_zero, Nat.mul_one, log2_shiftLeft hne]
      rfl
    show Below 971 (UnpackedFloat.ofScientific Format.binary64 n 0)
    rw [UnpackedFloat.ofScientific, dif_neg hne, if_neg (by decide), if_neg (by simp),
      if_pos (by decide), UnpackedFloat.mul]
    generalize n <<< Format.binary64.mantissaBits * 10 ^ (0 : ℤ).toNat = m at hmantissa ⊢
    refine below_round (by decide) (by decide) ?_
    have hbits : (Format.binary64.mantissaBits : ℤ) = 53 := by decide
    unfold totalExponent
    omega

theorem isFinite_ofInt {i : ℤ} (h : i.natAbs < 2 ^ 64) : (Float.ofInt i).isFinite = true := by
  cases i with
  | ofNat n => exact isFinite_ofNat h
  | negSucc n => exact isFinite_neg (isFinite_ofNat h)

end Doubles

end AgentSwarm.Decimal
