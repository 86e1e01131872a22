/-
**Timestamps are read back.**

A timestamp is written in UTC with its fields at fixed widths, and each field is read back from its
digits.  What was read before lies in the years that can be represented.  A leap second was read from
the last second of a minute, and since offsets are whole minutes it is the last second of a minute in
UTC too: there it is written as second 60, which is how it is read again.

Main definitions:

* `AgentSwarm.Timestamp.Proper` — the timestamps that can be read.

Main results:

* `AgentSwarm.Timestamp.proper_of_parse` — what is read is one of them;
* `AgentSwarm.Timestamp.parse_text` — **they are read back**.
-/

import AgentSwarm.Proofs.Timestamp.Calendar
import AgentSwarm.Proofs.Decimal.Notation
import AgentSwarm.Proofs.Json.Rest
import AgentSwarm.Proofs.Text.Blank

set_option relaxedAutoImplicit false
set_option autoImplicit false

namespace AgentSwarm.Timestamp

open Decimal
open Json (bind_eq_ok)

variable {ds cs rest : List Char} {width n : ℕ}

/-! ### Digits -/

theorem digitsValue_lt (hds : ∀ c ∈ ds, c.isDigit = true) : digitsValue ds < 10 ^ ds.length := by
  have hstep : ∀ (w : ℕ), Nat.ofDigitChars 10 ds w < (w + 1) * 10 ^ ds.length := by
    induction ds with
    | nil => intro w; simp [Nat.ofDigitChars]
    | cons c ds ih =>
        intro w
        obtain ⟨hc, hds⟩ := List.forall_mem_cons.1 hds
        have hrange := (Char.isDigit_iff_toNat.1 hc).2
        have hlow : '0'.toNat = 48 := rfl
        have hhigh : '9'.toNat = 57 := rfl
        rw [Nat.ofDigitChars_cons, List.length_cons]
        calc Nat.ofDigitChars 10 ds (10 * w + (c.toNat - '0'.toNat))
            < (10 * w + (c.toNat - '0'.toNat) + 1) * 10 ^ ds.length := ih hds _
          _ ≤ ((w + 1) * 10) * 10 ^ ds.length := Nat.mul_le_mul_right _ (by omega)
          _ = (w + 1) * 10 ^ (ds.length + 1) := by ring
  simpa [digitsValue] using hstep 0

/-- A text that does not go on with a digit. -/
def EndsDigits (cs : List Char) : Prop := ∀ c ∈ cs.head?, c.isDigit = false

theorem takeWhile_take (hds : ∀ c ∈ ds, c.isDigit = true) (hwidth : ds.length ≤ width)
    (hend : ds.length = width ∨ EndsDigits rest) :
    ((ds ++ rest).take width).takeWhile Char.isDigit = ds := by
  rw [List.take_append, List.take_of_length_le hwidth, List.takeWhile_append_of_pos hds]
  suffices h : (rest.take (width - ds.length)).takeWhile Char.isDigit = [] by
    rw [h, List.append_nil]
  cases rest with
  | nil => simp
  | cons c rest =>
      rcases hend with hlength | hend
      · simp [hlength]
      · cases hk : width - ds.length with
        | zero => rfl
        | succ k => simp [hend c rfl]

/-- Digits are read. -/
theorem readDigits_append (hne : ds ≠ []) (hds : ∀ c ∈ ds, c.isDigit = true)
    (hwidth : ds.length ≤ width) (hend : ds.length = width ∨ EndsDigits rest)
    (hlt : digitsValue ds < 2 ^ 63) : readDigits width (ds ++ rest) = .ok (digitsValue ds, rest) := by
  have htake := takeWhile_take hds hwidth hend
  obtain ⟨c, tail, rfl⟩ := List.exists_cons_of_ne_nil hne
  have hc := hds c List.mem_cons_self
  rw [List.cons_append] at htake ⊢
  unfold readDigits
  simp only [hc, htake, foldl_eq_digitsValue, Bool.not_true, Bool.false_eq_true, if_false]
  rw [if_neg (by rw [Nat.not_le]; exact hlt), ← List.cons_append, List.drop_left]

/-- What is read are digits. -/
theorem exists_digits_of_readDigits (h : readDigits width cs = .ok (n, rest)) :
    ∃ ds, cs = ds ++ rest ∧ (∀ c ∈ ds, c.isDigit = true) ∧ ds.length ≤ width ∧
      n = digitsValue ds := by
  cases cs with
  | nil => cases h
  | cons c tail =>
      simp only [readDigits] at h
      split at h
      next => cases h
      next =>
          split at h
          next => cases h
          next =>
              obtain ⟨rfl, rfl⟩ := Prod.mk.inj (Except.ok.inj h)
              generalize hds : ((c :: tail).take width).takeWhile Char.isDigit = ds
              have hstart : ds <+: c :: tail := by
                rw [← hds]
                exact (List.takeWhile_prefix _).trans (List.take_prefix _ _)
              obtain ⟨rest, hrest⟩ := hstart
              refine ⟨ds, ?_, ?_, ?_, foldl_eq_digitsValue ds⟩
              · rw [← hrest, List.drop_left]
              · rw [← hds]
                exact fun c hc => List.mem_takeWhile_imp hc
              · rw [← hds]
                exact (List.takeWhile_prefix _).length_le.trans (List.length_take_le _ _)

/-! ### Fields of fixed width -/

theorem isDigit_of_mem_padded {c : Char} (h : c ∈ padded width n) : c.isDigit = true := by
  rcases List.mem_append.1 h with hzero | hdigit
  · exact isDigit_of_mem_zeros hzero
  · exact isDigit_of_mem_natChars hdigit

theorem padded_ne_nil (width n : ℕ) : padded width n ≠ [] :=
  List.append_ne_nil_of_right_ne_nil _ natChars_ne_nil

theorem digitsValue_padded (width n : ℕ) : digitsValue (padded width n) = n := by
  rw [padded, digitsValue_zeros_append, digitsValue_natChars]

theorem length_padded (hpos : 0 < width) (h : n < 10 ^ width) : (padded width n).length = width := by
  have hle : (natChars n).length ≤ width := (Nat.length_toDigits_le_iff (by norm_num) hpos).2 h
  rw [padded, List.length_append, List.length_replicate]
  omega

/-- A number at its width is read. -/
theorem readDigits_padded {bound : ℕ} (hpos : 0 < width) (h : n < 10 ^ width) (hbound : width ≤ bound)
    (hend : width = bound ∨ EndsDigits rest) (hlt : n < 2 ^ 63) :
    readDigits bound (padded width n ++ rest) = .ok (n, rest) := by
  have hlength := length_padded hpos h
  rw [← hlength] at hbound hend
  have hread := readDigits_append (padded_ne_nil width n) (fun c => isDigit_of_mem_padded) hbound hend
    (by rw [digitsValue_padded]; exact hlt)
  rwa [digitsValue_padded] at hread

theorem skipBlank_cons {c : Char} (h : Text.isBlank c = false) : skipBlank (c :: cs) = c :: cs :=
  List.dropWhile_cons_of_neg (by simp [h])

theorem skipBlank_padded : skipBlank (padded width n ++ rest) = padded width n ++ rest := by
  obtain ⟨c, tail, htail⟩ := List.exists_cons_of_ne_nil (padded_ne_nil width n)
  have hc : c.isDigit = true := isDigit_of_mem_padded (by rw [htail]; exact List.mem_cons_self)
  rw [htail]
  exact skipBlank_cons (Text.not_isBlank_of_isDigit hc)

theorem readField_padded {least greatest : ℕ} (hleast : least ≤ n) (hgreatest : n ≤ greatest)
    (hbound : greatest < 100) : readField least greatest (padded 2 n ++ rest) = .ok (n, rest) := by
  have hdigits : readDigits 2 (padded 2 n ++ rest) = .ok (n, rest) :=
    readDigits_padded (by norm_num) (by omega) le_rfl (.inl rfl) (by omega)
  rw [readField, skipBlank_padded, hdigits]
  exact if_pos ⟨hleast, hgreatest⟩

theorem readMark_cons {mark : Char} (h : Text.isBlank mark = false) :
    readMark mark (mark :: rest) = .ok rest := by
  rw [readMark, skipBlank_cons h]
  exact if_pos rfl

/-! ### The year -/

theorem endsDigits_cons {c : Char} (h : c.isDigit = false) : EndsDigits (c :: cs) := by
  rintro d hd
  obtain rfl := Option.some.inj hd
  exact h

/-- The digits of a year that fits. -/
theorem bind_fit {e : Except Fault (ℕ × List Char)} {y : ℤ} (sign : ℕ → ℤ)
    (he : e = .ok (n, rest)) (hsign : sign n = y) (hfit : -Int.pow 2 31 ≤ y ∧ y < Int.pow 2 31) :
    (e >>= fun x => if -Int.pow 2 31 ≤ sign x.1 ∧ sign x.1 < Int.pow 2 31
      then Except.ok (sign x.1, x.2) else Except.error Fault.outOfRange) = .ok (y, rest) := by
  subst he hsign
  exact if_pos hfit

/-- A year is read. -/
theorem readYear_yearChars {y : ℤ} (hy : yearRange.1 ≤ y ∧ y ≤ yearRange.2) :
    readYear (yearChars y ++ '-' :: rest) = .ok (y, '-' :: rest) := by
  have hleast : -262143 ≤ y := hy.1
  have hgreatest : y ≤ 262142 := hy.2
  have hend : EndsDigits ('-' :: rest) := endsDigits_cons rfl
  have hfit : -Int.pow 2 31 ≤ y ∧ y < Int.pow 2 31 := by
    have hpow : Int.pow 2 31 = 2147483648 := rfl
    omega
  -- behind a sign the number takes as many digits as there are
  have hsigned : readDigits (padded 4 y.natAbs ++ '-' :: rest).length
      (padded 4 y.natAbs ++ '-' :: rest) = .ok (y.natAbs, '-' :: rest) := by
    have hread := readDigits_append (padded_ne_nil 4 y.natAbs) (fun c => isDigit_of_mem_padded)
      (by simp : (padded 4 y.natAbs).length ≤ (padded 4 y.natAbs ++ '-' :: rest).length) (.inr hend)
      (by rw [digitsValue_padded]; omega)
    rwa [digitsValue_padded] at hread
  unfold yearChars
  split
  next hplain =>
      have hread : readDigits 4 (padded 4 y.toNat ++ '-' :: rest) = .ok (y.toNat, '-' :: rest) :=
        readDigits_padded (by norm_num) (by omega) le_rfl (.inl rfl) (by omega)
      have hcast : (y.toNat : ℤ) = y := Int.toNat_of_nonneg hplain.1
      have hhead : ∀ c tail, c.isDigit = false → padded 4 y.toNat ++ '-' :: rest ≠ c :: tail := by
        intro c tail hc heq
        obtain ⟨d, more, hmore⟩ := List.exists_cons_of_ne_nil (padded_ne_nil 4 y.toNat)
        have hd : d.isDigit = true := isDigit_of_mem_padded (by rw [hmore]; exact List.mem_cons_self)
        rw [hmore, List.cons_append] at heq
        rw [(List.cons.inj heq).1, hc] at hd
        cases hd
      rw [readYear, skipBlank_padded]
      split
      next heq => exact absurd heq (hhead _ _ rfl)
      next heq => exact absurd heq (hhead _ _ rfl)
      next =>
          exact bind_fit (fun n => n) hread hcast hfit
  next hsign =>
      split
      next hneg =>
          rw [List.cons_append, readYear, skipBlank_cons rfl]
          exact bind_fit (fun n => -n) hsigned (by omega) hfit
      next hneg =>
          rw [List.cons_append, readYear, skipBlank_cons rfl]
          exact bind_fit (fun n => n) hsigned (by omega) hfit

/-! ### Nanoseconds -/

/-- The digits after the point are read. -/
theorem readNanos_point {k : ℕ} (hpos : 0 < k) (hk : k ≤ 9) (h : n < 10 ^ k) (hend : EndsDigits rest) :
    readNanos ('.' :: (padded k n ++ rest)) = .ok (n * 10 ^ (9 - k), rest) := by
  have hle : 10 ^ k ≤ 10 ^ 9 := Nat.pow_le_pow_right (by norm_num) hk
  have hdigits : readDigits 9 (padded k n ++ rest) = .ok (n, rest) :=
    readDigits_padded hpos h hk (.inr hend) (by omega)
  have hused : (padded k n ++ rest).length - rest.length = k := by
    rw [List.length_append, length_padded hpos h, Nat.add_sub_cancel]
  have hdrop : rest.dropWhile Char.isDigit = rest := by
    cases rest with
    | nil => rfl
    | cons c rest => exact List.dropWhile_cons_of_neg (by simp [hend c rfl])
  rw [readNanos, hdigits]
  show Except.ok (n * 10 ^ (9 - ((padded k n ++ rest).length - rest.length)), _) = _
  rw [hused, hdrop]

/-- Nanoseconds are read. -/
theorem readNanos_nanosChars (h : n < 1000000000) :
    readNanos (nanosChars n ++ ['Z']) = .ok (n, ['Z']) := by
  have hend : EndsDigits ['Z'] := endsDigits_cons rfl
  unfold nanosChars
  split
  next hzero =>
      rw [hzero]
      rfl
  split
  next hmillis =>
      refine (readNanos_point (by norm_num) (by norm_num) (by omega) hend).trans ?_
      congr 2
      omega
  split
  next hmicros =>
      refine (readNanos_point (by norm_num) (by norm_num) (by omega) hend).trans ?_
      congr 2
      omega
  next =>
      exact (readNanos_point (by norm_num) (by norm_num) (by omega) hend).trans (by simp)

/-! ### Timestamps that are read -/

/-- A point in time whose year can be represented; in a leap second it is the last second of a
minute. -/
structure Proper (t : Timestamp) : Prop where
  year_mem : yearRange.1 ≤ (dateOfDays (t.seconds / 86400)).1 ∧
    (dateOfDays (t.seconds / 86400)).1 ≤ yearRange.2
  nanos_lt : t.nanos < 2000000000
  leap : 1000000000 ≤ t.nanos → t.seconds % 60 = 59

theorem readNanos_lt (h : readNanos cs = .ok (n, rest)) : n < 1000000000 := by
  unfold readNanos at h
  split at h
  next tail =>
      obtain ⟨⟨m, tail'⟩, hdigits, h⟩ := bind_eq_ok.1 h
      obtain ⟨ds, hds, hall, hlength, rfl⟩ := exists_digits_of_readDigits hdigits
      obtain ⟨rfl, -⟩ := Prod.mk.inj (Except.ok.inj h)
      have hused : tail.length - tail'.length = ds.length := by
        rw [hds, List.length_append, Nat.add_sub_cancel]
      rw [hused]
      calc digitsValue ds * 10 ^ (9 - ds.length)
          < 10 ^ ds.length * 10 ^ (9 - ds.length) :=
            Nat.mul_lt_mul_of_pos_right (digitsValue_lt hall) (by positivity)
        _ = 10 ^ 9 := by rw [← Nat.pow_add, Nat.add_sub_cancel' hlength]
        _ = 1000000000 := by norm_num
  next =>
      obtain ⟨rfl, -⟩ := Prod.mk.inj (Except.ok.inj h)
      norm_num

/-- Offsets are whole minutes. -/
theorem readOffset_mod {offset : ℤ} (h : readOffset cs = .ok (offset, rest)) : offset % 60 = 0 := by
  unfold readOffset at h
  split at h
  next => cases h
  split at h
  next =>
      obtain ⟨rfl, -⟩ := Prod.mk.inj (Except.ok.inj h)
      rfl
  split at h
  next => cases h
  split at h
  next => cases h
  next => cases h
  split at h
  next => cases h
  next => cases h
  split at h
  next => cases h
  next =>
      obtain ⟨rfl, -⟩ := Prod.mk.inj (Except.ok.inj h)
      split <;> omega

theorem readZone_mod {offset : ℤ} (h : readZone cs = .ok (offset, rest)) : offset % 60 = 0 := by
  unfold readZone at h
  split at h
  next =>
      split at h
      next =>
          obtain ⟨rfl, -⟩ := Prod.mk.inj (Except.ok.inj h)
          rfl
      next => exact readOffset_mod h
  next => exact readOffset_mod h

theorem of_guard {A : Type} {p : Prop} [Decidable p] {fault : Fault} {f : PUnit → Except Fault A}
    {a : A} (h : (if p then throw fault >>= f else f ⟨⟩) = .ok a) : ¬ p ∧ f ⟨⟩ = .ok a := by
  split at h
  next => cases h
  next hp => exact ⟨hp, h⟩

/-- What is read lies in the years that can be represented. -/
theorem proper_of_parse {s : String} {t : Timestamp} (h : parse s = .ok t) : Proper t := by
  unfold parse at h
  obtain ⟨⟨year, cs⟩, -, h⟩ := bind_eq_ok.1 h
  obtain ⟨cs, -, h⟩ := bind_eq_ok.1 h
  obtain ⟨⟨month, cs⟩, -, h⟩ := bind_eq_ok.1 h
  obtain ⟨cs, -, h⟩ := bind_eq_ok.1 h
  obtain ⟨⟨day, cs⟩, -, h⟩ := bind_eq_ok.1 h
  obtain ⟨cs, -, h⟩ := bind_eq_ok.1 h
  obtain ⟨⟨hour, cs⟩, -, h⟩ := bind_eq_ok.1 h
  obtain ⟨cs, -, h⟩ := bind_eq_ok.1 h
  obtain ⟨⟨minute, cs⟩, -, h⟩ := bind_eq_ok.1 h
  obtain ⟨cs, -, h⟩ := bind_eq_ok.1 h
  obtain ⟨⟨second, cs⟩, hsecond, h⟩ := bind_eq_ok.1 h
  obtain ⟨⟨nanos, cs⟩, hnanos, h⟩ := bind_eq_ok.1 h
  obtain ⟨⟨offset, cs⟩, hoffset, h⟩ := bind_eq_ok.1 h
  obtain ⟨-, h⟩ := of_guard h
  obtain ⟨-, h⟩ := of_guard h
  obtain ⟨-, h⟩ := of_guard h
  obtain ⟨hshown, h⟩ := of_guard h
  obtain rfl := Except.ok.inj h
  have hlt := readNanos_lt hnanos
  have hmod := readZone_mod hoffset
  refine ⟨?_, ?_, ?_⟩
  · rw [not_or, not_lt, not_lt] at hshown
    exact hshown
  · dsimp only
    split <;> omega
  · dsimp only
    split
    next hleap =>
        intro
        rw [hleap]
        omega
    next => omega

theorem readDivider_cons : readDivider ('T' :: rest) = .ok rest := rfl

theorem guard_ok {A : Type} {p : Prop} [Decidable p] {fault : Fault} {f : PUnit → Except Fault A}
    {a : A} (hp : ¬ p) (h : f ⟨⟩ = .ok a) : (if p then throw fault >>= f else f ⟨⟩) = .ok a :=
  (if_neg hp).trans h

/-- **Timestamps are read back.** -/
theorem parse_text {t : Timestamp} (h : Proper t) : parse t.text = .ok t := by
  obtain ⟨hyear, hnanos, hleap⟩ := h
  have hmonth := month_dateOfDays (t.seconds / 86400)
  have hday := le_daysInMonth_dateOfDays (t.seconds / 86400)
  have hdays := daysOfDate_dateOfDays (t.seconds / 86400)
  have hlast : daysInMonth (dateOfDays (t.seconds / 86400)).1 (dateOfDays (t.seconds / 86400)).2.1 ≤
      31 := by
    unfold daysInMonth
    split
    · split <;> norm_num
    · split <;> norm_num
  unfold parse text
  generalize hdate : dateOfDays (t.seconds / 86400) = date at *
  obtain ⟨year, month, day⟩ := date
  -- the seconds of the day and, in a leap second, one more
  obtain ⟨inDay, hinDay⟩ : ∃ n, (t.seconds % 86400).toNat = n := ⟨_, rfl⟩
  have hinDay' : t.seconds % 86400 = inDay ∧ inDay < 86400 := by omega
  obtain ⟨extra, nanos, hextra, hnanos', htime⟩ : ∃ extra nanos,
      extra = (if 1000000000 ≤ t.nanos then 1 else 0) ∧
      nanos = (if 1000000000 ≤ t.nanos then t.nanos - 1000000000 else t.nanos) ∧
      (extra = 0 ∧ nanos = t.nanos ∧ nanos < 1000000000 ∨
        extra = 1 ∧ nanos + 1000000000 = t.nanos ∧ nanos < 1000000000 ∧ inDay % 60 = 59) := by
    refine ⟨_, _, rfl, rfl, ?_⟩
    split
    next hle => exact .inr ⟨rfl, by omega, by omega, by have := hleap hle; omega⟩
    next hlt => exact .inl ⟨rfl, rfl, by omega⟩
  simp only [hinDay, String.toList_ofList, List.append_assoc, List.cons_append, ← hextra, ← hnanos']
  refine bind_eq_ok.2 ⟨_, readYear_yearChars hyear, ?_⟩
  refine bind_eq_ok.2 ⟨_, readMark_cons rfl, ?_⟩
  refine bind_eq_ok.2 ⟨_, readField_padded hmonth.1 hmonth.2 (by norm_num), ?_⟩
  refine bind_eq_ok.2 ⟨_, readMark_cons rfl, ?_⟩
  refine bind_eq_ok.2 ⟨_, readField_padded hday.1 (hday.2.trans hlast) (by norm_num), ?_⟩
  refine bind_eq_ok.2 ⟨_, readDivider_cons, ?_⟩
  refine bind_eq_ok.2 ⟨_, readField_padded (Nat.zero_le _) (by omega) (by norm_num), ?_⟩
  refine bind_eq_ok.2 ⟨_, readMark_cons rfl, ?_⟩
  refine bind_eq_ok.2 ⟨_, readField_padded (Nat.zero_le _) (by omega) (by norm_num), ?_⟩
  refine bind_eq_ok.2 ⟨_, readMark_cons rfl, ?_⟩
  refine bind_eq_ok.2 ⟨_, readField_padded (Nat.zero_le _) (by omega) (by norm_num), ?_⟩
  refine bind_eq_ok.2 ⟨_, readNanos_nanosChars (by omega), ?_⟩
  refine bind_eq_ok.2 ⟨(0, []), rfl, ?_⟩
  have hseconds : daysOfDate year month day * 86400 + ((inDay / 3600 : ℕ) : ℤ) * 3600 +
      ((inDay % 3600 / 60 : ℕ) : ℤ) * 60 + ((min (inDay % 60 + extra) 59 : ℕ) : ℤ) = t.seconds := by
    dsimp only at hdays
    rw [hdays]
    omega
  refine guard_ok (by decide) ?_
  refine guard_ok (by dsimp only at hyear hday ⊢; omega) ?_
  refine guard_ok (by norm_num) ?_
  dsimp only
  rw [hseconds, sub_zero, hdate]
  refine guard_ok (by dsimp only at hyear ⊢; omega) ?_
  have hnanos'' : (if inDay % 60 + extra = 60 then nanos + 1000000000 else nanos) = t.nanos := by
    split <;> omega
  rw [hnanos'']
  rfl

/-- A timestamp that was read is read back. -/
theorem parse_text_of_parse {s : String} {t : Timestamp} (h : parse s = .ok t) :
    parse t.text = .ok t :=
  parse_text (proper_of_parse h)

end AgentSwarm.Timestamp
