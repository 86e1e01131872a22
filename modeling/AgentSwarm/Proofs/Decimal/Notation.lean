/-
**Decimal texts mean their digits.**

A number is written with a point somewhere among its digits, with zeros before or after them, or
with an exponent.  Read as a rational number, every such text has the value of the digits that were
written, whatever the notation is; and it is recognised as the text of a number that is no integer,
since it has a point or an exponent.

Main definitions:

* `AgentSwarm.Decimal.textValue` — the rational number that a text stands for;
* `AgentSwarm.Decimal.isNumeral` — the characters of numbers.

Main results:

* `AgentSwarm.Decimal.intChars_injective` — integers have different texts;
* `AgentSwarm.Decimal.textValue_chars` — **a text has the value of its digits**;
* `AgentSwarm.Decimal.isNumeral_chars`, `AgentSwarm.Decimal.exists_mark_chars`,
  `AgentSwarm.Decimal.chars_ne_minus` — the shape of a text.
-/

import AgentSwarm.Decimal.Notation
import AgentSwarm.Proofs.Decimal.Shortest
import Mathlib.Data.List.TakeWhile

set_option relaxedAutoImplicit false
set_option autoImplicit false

namespace AgentSwarm.Decimal

/-! ### Natural numbers and integers -/

variable {ds fs : List Char} {n k : ℕ}

theorem isDigit_of_mem_natChars {c : Char} (h : c ∈ natChars n) : c.isDigit = true :=
  Nat.isDigit_of_mem_toDigits (by norm_num) le_rfl h

theorem natChars_ne_nil : natChars n ≠ [] := Nat.toDigits_ne_nil

/-- The number of some digits. -/
def digitsValue (ds : List Char) : ℕ := Nat.ofDigitChars 10 ds 0

@[simp] theorem digitsValue_natChars (n : ℕ) : digitsValue (natChars n) = n :=
  Nat.ofDigitChars_toDigits (by norm_num) le_rfl

/-- Digits are added up from the left. -/
theorem foldl_eq_digitsValue (ds : List Char) :
    ds.foldl (fun n c => n * 10 + (c.toNat - 48)) 0 = digitsValue ds := by
  have hstep : ∀ w, ds.foldl (fun n c => n * 10 + (c.toNat - 48)) w = Nat.ofDigitChars 10 ds w := by
    induction ds with
    | nil => exact fun w => rfl
    | cons c ds ih =>
        intro w
        rw [List.foldl_cons, Nat.ofDigitChars_cons, ih, Nat.mul_comm]
        rfl
  exact hstep 0

/-- Digits behind a number make it no smaller. -/
theorem le_ofDigitChars (ds : List Char) (w : ℕ) : w ≤ Nat.ofDigitChars 10 ds w := by
  induction ds generalizing w with
  | nil => exact le_rfl
  | cons c ds ih =>
      rw [Nat.ofDigitChars_cons]
      exact (by omega : w ≤ 10 * w + (c.toNat - '0'.toNat)).trans (ih _)

/-- Zeros before digits do not count. -/
theorem digitsValue_zeros_append (k : ℕ) (ds : List Char) :
    digitsValue (List.replicate k '0' ++ ds) = digitsValue ds := by
  induction k with
  | zero => rfl
  | succ k ih => exact ih

/-- Each zero behind digits makes ten times their number. -/
theorem digitsValue_append_zeros (ds : List Char) (k : ℕ) :
    digitsValue (ds ++ List.replicate k '0') = digitsValue ds * 10 ^ k := by
  induction k with
  | zero => simp
  | succ k ih =>
      rw [List.replicate_succ', ← List.append_assoc, digitsValue, Nat.ofDigitChars_append]
      rw [← digitsValue, ih]
      show 10 * (digitsValue ds * 10 ^ k) + 0 = digitsValue ds * 10 ^ (k + 1)
      ring

/-- Texts of natural numbers have no sign. -/
theorem natChars_ne_cons {c : Char} (hc : c.isDigit = false) : natChars n ≠ c :: ds := by
  intro h
  have := isDigit_of_mem_natChars (n := n) (c := c) (by simp [h])
  simp [hc] at this

/-- **Integers have different texts.** -/
theorem intChars_injective : Function.Injective intChars := by
  have hnat : ∀ {m n : ℕ}, natChars m = natChars n → m = n := by
    intro m n h
    rw [← digitsValue_natChars m, h, digitsValue_natChars]
  intro a b h
  cases a with
  | ofNat m =>
      cases b with
      | ofNat n => exact congrArg Int.ofNat (hnat h)
      | negSucc n => exact absurd h (natChars_ne_cons rfl)
  | negSucc m =>
      cases b with
      | ofNat n => exact absurd h.symm (natChars_ne_cons rfl)
      | negSucc n =>
          have := hnat (List.cons.inj h).2
          rw [Nat.succ_inj.1 this]

/-- The characters of numbers. -/
def isNumeral (c : Char) : Bool := c.isDigit || c == '-' || c == '+' || c == '.' || c == 'e'

theorem isNumeral_of_isDigit {c : Char} (h : c.isDigit = true) : isNumeral c = true := by
  simp [isNumeral, h]

theorem isNumeral_of_mem_intChars {a : ℤ} {c : Char} (h : c ∈ intChars a) :
    isNumeral c = true := by
  cases a with
  | ofNat n => exact isNumeral_of_isDigit (isDigit_of_mem_natChars h)
  | negSucc n =>
      rcases List.mem_cons.1 h with rfl | h
      · rfl
      · exact isNumeral_of_isDigit (isDigit_of_mem_natChars h)

/-! ### The value of a text -/

/-- The exponent behind the digits. -/
def exponentOf : List Char → ℤ
  | 'e' :: '-' :: ds => -digitsValue ds
  | 'e' :: '+' :: ds => digitsValue ds
  | 'e' :: ds => digitsValue ds
  | _ => 0

/-- The rational number that digits stand for, with a point among them and an exponent behind
them. -/
def textValue (cs : List Char) : ℚ :=
  let mantissa := cs.takeWhile (· != 'e')
  let places := ((mantissa.dropWhile (· != '.')).drop 1).length
  digitsValue (mantissa.filter (· != '.')) *
    10 ^ (exponentOf (cs.dropWhile (· != 'e')) - places)

theorem bne_of_isDigit {c m : Char} (hm : m.isDigit = false) (h : c.isDigit = true) :
    (c != m) = true := by
  rw [bne_iff_ne]
  rintro rfl
  rw [hm] at h
  cases h

/-- What follows the digits of a text: nothing, or an exponent. -/
def IsTail (tail : List Char) : Prop := tail = [] ∨ ∃ rest, tail = 'e' :: rest

theorem takeWhile_append_tail {tail : List Char} (hds : ∀ c ∈ ds, (c != 'e') = true)
    (htail : IsTail tail) : (ds ++ tail).takeWhile (· != 'e') = ds := by
  rw [List.takeWhile_append_of_pos hds]
  rcases htail with rfl | ⟨rest, rfl⟩ <;> simp

theorem dropWhile_append_tail {tail : List Char} (hds : ∀ c ∈ ds, (c != 'e') = true)
    (htail : IsTail tail) : (ds ++ tail).dropWhile (· != 'e') = tail := by
  rw [List.dropWhile_append_of_pos hds]
  rcases htail with rfl | ⟨rest, rfl⟩ <;> simp

/-- The value of digits without a point. -/
theorem textValue_digits {tail : List Char} (hds : ∀ c ∈ ds, c.isDigit = true)
    (htail : IsTail tail) :
    textValue (ds ++ tail) = digitsValue ds * 10 ^ exponentOf tail := by
  have hmark : ∀ c ∈ ds, (c != 'e') = true := fun c hc => bne_of_isDigit rfl (hds c hc)
  have hpoint : ∀ c ∈ ds, (c != '.') = true := fun c hc => bne_of_isDigit rfl (hds c hc)
  rw [textValue, takeWhile_append_tail hmark htail, dropWhile_append_tail hmark htail]
  have hplaces : ds.dropWhile (· != '.') = [] := List.dropWhile_eq_nil_iff.2 hpoint
  simp [List.filter_eq_self.2 hpoint, hplaces]

/-- The value of digits with a point among them. -/
theorem textValue_point {tail : List Char} (hds : ∀ c ∈ ds, c.isDigit = true)
    (hfs : ∀ c ∈ fs, c.isDigit = true) (htail : IsTail tail) :
    textValue (ds ++ '.' :: fs ++ tail) =
      digitsValue (ds ++ fs) * 10 ^ (exponentOf tail - fs.length) := by
  have hpoint : ∀ c ∈ ds, (c != '.') = true := fun c hc => bne_of_isDigit rfl (hds c hc)
  have hpoint' : ∀ c ∈ fs, (c != '.') = true := fun c hc => bne_of_isDigit rfl (hfs c hc)
  have hmark : ∀ c ∈ ds ++ '.' :: fs, (c != 'e') = true := by
    intro c hc
    rcases List.mem_append.1 hc with hc | hc
    · exact bne_of_isDigit rfl (hds c hc)
    · rcases List.mem_cons.1 hc with rfl | hc
      · rfl
      · exact bne_of_isDigit rfl (hfs c hc)
  have hdigits : (ds ++ '.' :: fs).filter (· != '.') = ds ++ fs := by
    rw [List.filter_append, List.filter_eq_self.2 hpoint, List.filter_cons_of_neg (by simp),
      List.filter_eq_self.2 hpoint']
  have hplaces : (ds ++ '.' :: fs).dropWhile (· != '.') = '.' :: fs := by
    rw [List.dropWhile_append_of_pos hpoint]
    rfl
  rw [textValue, takeWhile_append_tail hmark htail, dropWhile_append_tail hmark htail]
  simp only [hdigits, hplaces, List.drop_succ_cons, List.drop_zero]

theorem isTail_nil : IsTail [] := .inl rfl

/-- Zeros behind digits and the exponent are together a power of ten. -/
theorem cast_digitsValue_append_zeros (ds : List Char) (k : ℕ) (e : ℤ) :
    (digitsValue (ds ++ List.replicate k '0') : ℚ) * 10 ^ e = digitsValue ds * 10 ^ (k + e) := by
  rw [digitsValue_append_zeros, zpow_add₀ (by norm_num), zpow_natCast]
  push_cast
  ring

theorem isDigit_of_mem_zeros {c : Char} (h : c ∈ List.replicate k '0') : c.isDigit = true := by
  rw [List.eq_of_mem_replicate h]
  rfl

theorem isDigit_zero : ∀ c ∈ ['0'], c.isDigit = true := by simp

/-- The value of digits written positionally. -/
theorem textValue_plainChars (hds : ∀ c ∈ ds, c.isDigit = true) (lead : ℤ) :
    textValue (plainChars ds lead) = digitsValue ds * 10 ^ (lead + 1 - ds.length) := by
  unfold plainChars
  dsimp only
  split
  next hneg =>
      -- a zero, the point, more zeros, the digits
      have hfs : ∀ c ∈ List.replicate (-lead - 1).toNat '0' ++ ds, c.isDigit = true :=
        fun c hc => (List.mem_append.1 hc).elim isDigit_of_mem_zeros (hds c)
      have hvalue := textValue_point isDigit_zero hfs isTail_nil
      have hdigits : digitsValue (['0'] ++ (List.replicate (-lead - 1).toNat '0' ++ ds)) =
          digitsValue ds := digitsValue_zeros_append ((-lead - 1).toNat + 1) ds
      rw [List.append_nil, hdigits] at hvalue
      refine hvalue.trans ?_
      congr 2
      simp only [exponentOf, List.length_append, List.length_replicate]
      omega
  next hneg =>
      split
      next hlen =>
          -- the digits, zeros, the point, a zero
          have hwhole : ∀ c ∈ ds ++ List.replicate (lead.toNat + 1 - ds.length) '0',
              c.isDigit = true :=
            fun c hc => (List.mem_append.1 hc).elim (hds c) isDigit_of_mem_zeros
          have hzeros : ds ++ List.replicate (lead.toNat + 1 - ds.length) '0' ++ ['0'] =
              ds ++ List.replicate (lead.toNat + 1 - ds.length + 1) '0' := by
            rw [List.append_assoc, ← List.replicate_succ']
          have hvalue := textValue_point hwhole isDigit_zero isTail_nil
          rw [List.append_nil, hzeros, cast_digitsValue_append_zeros] at hvalue
          refine (congrArg textValue ?_).trans (hvalue.trans ?_)
          · simp
          congr 2
          simp only [exponentOf, List.length_singleton]
          omega
      next hlen =>
          -- the point among the digits
          have hvalue := textValue_point
            (fun c (hc : c ∈ ds.take (lead.toNat + 1)) => hds c (List.mem_of_mem_take hc))
            (fun c (hc : c ∈ ds.drop (lead.toNat + 1)) => hds c (List.mem_of_mem_drop hc)) isTail_nil
          rw [List.append_nil, List.take_append_drop] at hvalue
          refine hvalue.trans ?_
          congr 2
          simp only [exponentOf, List.length_drop]
          omega

/-- The exponent that is written is read. -/
theorem exponentOf_sign_intChars (plusSign : Bool) (lead : ℤ) :
    exponentOf ('e' :: (if 0 ≤ lead && plusSign then ['+'] else []) ++ intChars lead) = lead := by
  have hnat : ∀ n : ℕ, exponentOf ('e' :: natChars n) = n := by
    intro n
    have hvalue := digitsValue_natChars n
    cases hds : natChars n with
    | nil => exact absurd hds natChars_ne_nil
    | cons c ds =>
        have hc : c.isDigit = true := isDigit_of_mem_natChars (n := n) (by simp [hds])
        rw [hds] at hvalue
        unfold exponentOf
        split
        next heq => simp_all
        next heq => simp_all
        next heq => simp_all
        next heq => simp_all
  cases lead with
  | ofNat n =>
      cases plusSign with
      | true => simp [intChars, exponentOf]
      | false => simpa [intChars] using hnat n
  | negSucc n =>
      have hsign : (decide (0 ≤ Int.negSucc n) && plusSign) = false := by
        rw [decide_eq_false (by omega), Bool.false_and]
      rw [hsign]
      show -((digitsValue (natChars (n + 1)) : ℕ) : ℤ) = Int.negSucc n
      rw [digitsValue_natChars]
      rfl

/-- The value of digits written with an exponent. -/
theorem textValue_scientificChars (plusSign : Bool) (hds : ∀ c ∈ ds, c.isDigit = true)
    (hne : ds ≠ []) (lead : ℤ) :
    textValue (scientificChars plusSign ds lead) =
      digitsValue ds * 10 ^ (lead + 1 - ds.length) := by
  have htail : IsTail ('e' :: (if 0 ≤ lead && plusSign then ['+'] else []) ++ intChars lead) :=
    .inr ⟨_, rfl⟩
  have hexponent := exponentOf_sign_intChars plusSign lead
  have hfirst : ∀ c ∈ ds.take 1, c.isDigit = true := fun c hc => hds c (List.mem_of_mem_take hc)
  have hlength := List.length_pos_of_ne_nil hne
  unfold scientificChars
  dsimp only
  rw [List.append_assoc _ _ (intChars lead)]
  generalize ('e' :: if (decide (0 ≤ lead) && plusSign) = true then ['+'] else []) ++
    intChars lead = tail at htail hexponent ⊢
  split
  next hone =>
      have hvalue := textValue_digits hfirst htail
      rw [hexponent, List.take_of_length_le hone] at hvalue
      rw [List.append_nil, List.take_of_length_le hone, hvalue]
      congr 2
      omega
  next hmore =>
      have hvalue := textValue_point hfirst
        (fun c (hc : c ∈ ds.drop 1) => hds c (List.mem_of_mem_drop hc)) htail
      rw [hexponent, List.take_append_drop] at hvalue
      rw [hvalue, List.length_drop]
      congr 2
      omega

/-- **A text has the value of its digits.** -/
theorem textValue_chars (form : Notation) (d : Digits) : textValue (form.chars d) = d.value := by
  have hds : ∀ c ∈ natChars d.digits, c.isDigit = true := fun _ => isDigit_of_mem_natChars
  have hvalue : (digitsValue (natChars d.digits) : ℚ) *
      10 ^ (d.exponent + (natChars d.digits).length - 1 + 1 - (natChars d.digits).length) =
        d.value := by
    rw [digitsValue_natChars, Digits.value]
    congr 2
    omega
  unfold Notation.chars
  split
  next hzero =>
      have hpoint := textValue_point isDigit_zero isDigit_zero isTail_nil
      rw [Digits.value, hzero, Nat.cast_zero, zero_mul]
      exact hpoint.trans (by simp [digitsValue, Nat.ofDigitChars])
  next =>
      dsimp only
      split
      · rw [textValue_plainChars hds, hvalue]
      · rw [textValue_scientificChars _ hds natChars_ne_nil, hvalue]

/-! ### The shape of a text -/

theorem isNumeral_of_mem_zeros {c : Char} (h : c ∈ List.replicate k '0') : isNumeral c = true :=
  isNumeral_of_isDigit (isDigit_of_mem_zeros h)

theorem isNumeral_plainChars (hds : ∀ c ∈ ds, isNumeral c = true) (lead : ℤ) :
    ∀ c ∈ plainChars ds lead, isNumeral c = true := by
  unfold plainChars
  dsimp only
  split
  · simp only [List.forall_mem_append, List.forall_mem_cons]
    exact ⟨⟨rfl, rfl, fun _ => isNumeral_of_mem_zeros⟩, hds⟩
  · split
    · simp only [List.forall_mem_append, List.forall_mem_cons]
      exact ⟨⟨hds, fun _ => isNumeral_of_mem_zeros⟩, rfl, rfl, by simp⟩
    · simp only [List.forall_mem_append, List.forall_mem_cons]
      exact ⟨fun c hc => hds c (List.mem_of_mem_take hc), rfl,
        fun c hc => hds c (List.mem_of_mem_drop hc)⟩

theorem isNumeral_scientificChars (plusSign : Bool) (hds : ∀ c ∈ ds, isNumeral c = true)
    (lead : ℤ) : ∀ c ∈ scientificChars plusSign ds lead, isNumeral c = true := by
  have hpoint : ∀ c ∈ if ds.length ≤ 1 then [] else '.' :: ds.drop 1, isNumeral c = true := by
    split
    · simp
    · exact List.forall_mem_cons.2 ⟨rfl, fun c hc => hds c (List.mem_of_mem_drop hc)⟩
  have hsign : ∀ c ∈ if (decide (0 ≤ lead) && plusSign) = true then ['+'] else [],
      isNumeral c = true := by
    split <;> simp [isNumeral]
  unfold scientificChars
  simp only [List.forall_mem_append, List.forall_mem_cons]
  exact ⟨⟨⟨fun c hc => hds c (List.mem_of_mem_take hc), hpoint⟩, rfl, hsign⟩,
    fun _ => isNumeral_of_mem_intChars⟩

/-- A text is made of the characters of numbers. -/
theorem isNumeral_chars (form : Notation) (d : Digits) :
    ∀ c ∈ form.chars d, isNumeral c = true := by
  have hds : ∀ c ∈ natChars d.digits, isNumeral c = true :=
    fun c hc => isNumeral_of_isDigit (isDigit_of_mem_natChars hc)
  unfold Notation.chars
  split
  · simp [isNumeral]
  · dsimp only
    split
    · exact isNumeral_plainChars hds _
    · exact isNumeral_scientificChars _ hds _

/-- A text has a point or an exponent. -/
theorem exists_mark_chars (form : Notation) (d : Digits) :
    ∃ c ∈ form.chars d, c = '.' ∨ c = 'e' := by
  unfold Notation.chars plainChars scientificChars
  dsimp only
  split
  · exact ⟨'.', by simp, .inl rfl⟩
  · split
    · split
      · exact ⟨'.', by simp, .inl rfl⟩
      · split
        · exact ⟨'.', by simp, .inl rfl⟩
        · exact ⟨'.', by simp, .inl rfl⟩
    · exact ⟨'e', by simp, .inr rfl⟩

/-- A text does not start with a sign. -/
theorem chars_ne_minus (form : Notation) (d : Digits) (cs : List Char) :
    form.chars d ≠ '-' :: cs := by
  obtain ⟨c, ds, hds⟩ := List.exists_cons_of_ne_nil (natChars_ne_nil (n := d.digits))
  have hc : c ≠ '-' := by
    rintro rfl
    exact natChars_ne_cons rfl hds
  unfold Notation.chars plainChars scientificChars
  rw [hds]
  dsimp only
  split
  · simp
  · split
    · split
      · simp
      · split <;> simp [hc]
    · simp [hc]

end AgentSwarm.Decimal
