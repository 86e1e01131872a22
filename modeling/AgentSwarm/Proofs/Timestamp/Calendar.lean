/-
**The calendar is a bijection.**

Days are counted in eras of 400 years that begin in March.  An era consists of centuries, these of
cycles of four years, and these of years, each of which is a day longer than it seems only where it
is the last of its kind; the year and the day of the year are the digits of a day in this radix.
So the date of a day exists, and counting the days up to that date gives the day back.

Main definitions:

* `AgentSwarm.Timestamp.Cycle` — a day of an era by century, cycle, year and day of the year.

Main results:

* `AgentSwarm.Timestamp.exists_cycle` — every day of an era is one of these;
* `AgentSwarm.Timestamp.daysOfDate_dateOfDays` — **the date of a day is that day**;
* `AgentSwarm.Timestamp.le_daysInMonth_dateOfDays` — **the date of a day exists**.
-/

import AgentSwarm.Timestamp
import Mathlib.Tactic.IntervalCases

set_option relaxedAutoImplicit false
set_option autoImplicit false

namespace AgentSwarm.Timestamp

/-! ### The days of an era -/

/-- A day of an era: its century, the cycle of four years there, the year there and the day of that
year.  Only the last year of a cycle has a day more, unless it ends a century that does not end the
era. -/
structure Cycle (day century cycle year dayOfYear : ℤ) : Prop where
  eq : day = 36524 * century + 1461 * cycle + 365 * year + dayOfYear
  century_mem : 0 ≤ century ∧ century ≤ 3
  cycle_mem : 0 ≤ cycle ∧ cycle ≤ 24
  year_mem : 0 ≤ year ∧ year ≤ 3
  dayOfYear_mem : 0 ≤ dayOfYear ∧ dayOfYear ≤ 365
  leap : dayOfYear = 365 → year = 3 ∧ (cycle < 24 ∨ century = 3)

/-- Every day of an era has its place in a cycle. -/
theorem exists_cycle {day : ℤ} (h : 0 ≤ day ∧ day < 146097) :
    ∃ century cycle year dayOfYear, Cycle day century cycle year dayOfYear := by
  obtain ⟨century, hcentury, hrest⟩ : ∃ century : ℤ, (0 ≤ century ∧ century ≤ 3) ∧
      0 ≤ day - 36524 * century ∧ (day - 36524 * century < 36524 ∨
        day - 36524 * century = 36524 ∧ century = 3) := ⟨min (day / 36524) 3, by omega, by omega⟩
  generalize hinCentury : day - 36524 * century = inCentury at hrest
  obtain ⟨cycle, hcycle, hrest'⟩ : ∃ cycle : ℤ, (0 ≤ cycle ∧ cycle ≤ 24) ∧
      0 ≤ inCentury - 1461 * cycle ∧ (inCentury - 1461 * cycle < 1460 ∨
        inCentury - 1461 * cycle = 1460 ∧ (cycle < 24 ∨ century = 3)) :=
    ⟨inCentury / 1461, by omega, by omega⟩
  generalize hinCycle : inCentury - 1461 * cycle = inCycle at hrest'
  obtain ⟨year, hyear, hrest''⟩ : ∃ year : ℤ, (0 ≤ year ∧ year ≤ 3) ∧
      0 ≤ inCycle - 365 * year ∧ (inCycle - 365 * year < 365 ∨
        inCycle - 365 * year = 365 ∧ inCycle = 1460 ∧ year = 3) :=
    ⟨min (inCycle / 365) 3, by omega, by omega⟩
  exact ⟨century, cycle, year, inCycle - 365 * year, by omega, hcentury, hcycle, hyear, by omega,
    by omega⟩

/-- The year of an era in which a day lies. -/
def yearOfEra (day : ℤ) : ℤ := (day - day / 1460 + day / 36524 - day / 146096) / 365

/-- The day of an era on which a year begins. -/
def startOfYear (year : ℤ) : ℤ := 365 * year + year / 4 - year / 100

section Cycle

variable {day century cycle year dayOfYear : ℤ}

theorem Cycle.yearOfEra_eq (h : Cycle day century cycle year dayOfYear) :
    yearOfEra day = 100 * century + 4 * cycle + year := by
  obtain ⟨rfl, hcentury, hcycle, hyear, hday, hleap⟩ := h
  have hlast : (36524 * century + 1461 * cycle + 365 * year + dayOfYear) / 36524 -
      (36524 * century + 1461 * cycle + 365 * year + dayOfYear) / 146096 = century := by
    obtain ⟨inCentury, hin⟩ : ∃ n, n = 1461 * cycle + 365 * year + dayOfYear := ⟨_, rfl⟩
    have hsum : 36524 * century + 1461 * cycle + 365 * year + dayOfYear =
        36524 * century + inCentury := by omega
    have hmem : 0 ≤ inCentury ∧ (inCentury < 36524 ∨ inCentury = 36524 ∧ century = 3) := by omega
    rw [hsum]
    omega
  -- each cycle has one day more than 1460, and so a day slips into the next cycle at its end only
  have hslip : (36524 * century + 1461 * cycle + 365 * year + dayOfYear) / 1460 =
      25 * century + cycle + (24 * century + cycle + 365 * year + dayOfYear) / 1460 := by omega
  have hday' : 0 ≤ dayOfYear - (24 * century + cycle + 365 * year + dayOfYear) / 1460 ∧
      dayOfYear - (24 * century + cycle + 365 * year + dayOfYear) / 1460 < 365 := by omega
  unfold yearOfEra
  omega

theorem Cycle.startOfYear_eq (h : Cycle day century cycle year dayOfYear) :
    startOfYear (yearOfEra day) = day - dayOfYear := by
  rw [h.yearOfEra_eq, h.eq, startOfYear]
  obtain ⟨-, hcentury, hcycle, hyear, -, -⟩ := h
  omega

end Cycle

/-- The year of a day lies in its era, and the day in that year; the last day of a year of 366 days
comes before the year that has a leap day. -/
theorem yearOfEra_spec {day : ℤ} (h : 0 ≤ day ∧ day < 146097) :
    (0 ≤ yearOfEra day ∧ yearOfEra day < 400) ∧
      (0 ≤ day - startOfYear (yearOfEra day) ∧ day - startOfYear (yearOfEra day) ≤ 365) ∧
      (day - startOfYear (yearOfEra day) = 365 → (yearOfEra day + 1) % 4 = 0 ∧
        ((yearOfEra day + 1) % 100 ≠ 0 ∨ (yearOfEra day + 1) % 400 = 0)) := by
  obtain ⟨century, cycle, year, dayOfYear, hday⟩ := exists_cycle h
  rw [hday.startOfYear_eq, hday.yearOfEra_eq, sub_sub_cancel]
  obtain ⟨-, hcentury, hcycle, hyear, hmem, hleap⟩ := hday
  refine ⟨by omega, hmem, fun hlast => ?_⟩
  have := hleap hlast
  omega

/-! ### The months of a year -/

/-- The month of a day of the year, counted from March. -/
def monthOf (dayOfYear : ℤ) : ℤ := (5 * dayOfYear + 2) / 153

/-- The day of the year on which a month begins. -/
def startOfMonth (month : ℤ) : ℤ := (153 * month + 2) / 5

/-- How long the months are that do not come last. -/
def monthLength (month : ℤ) : ℤ := if month ∈ [1, 3, 6, 8] then 30 else 31

theorem monthOf_spec {n : ℤ} (h : 0 ≤ n ∧ n ≤ 365) :
    (0 ≤ monthOf n ∧ monthOf n ≤ 11) ∧ 0 ≤ n - startOfMonth (monthOf n) ∧
      (monthOf n ≤ 10 → n - startOfMonth (monthOf n) < monthLength (monthOf n)) ∧
      (monthOf n = 11 → n - startOfMonth (monthOf n) = n - 337) := by
  have hmonth : 0 ≤ monthOf n ∧ monthOf n ≤ 11 := by
    unfold monthOf
    omega
  have hlow : 153 * monthOf n ≤ 5 * n + 2 ∧ 5 * n + 2 < 153 * monthOf n + 153 := by
    unfold monthOf
    omega
  refine ⟨hmonth, ?_⟩
  obtain ⟨hleast, hgreatest⟩ := hmonth
  unfold startOfMonth monthLength
  generalize monthOf n = m at *
  interval_cases m <;> simp <;> omega

/-! ### Dates -/

/-- A date, as an era, a year of it, a month counted from March and a day counted from zero. -/
structure Dated (days : ℤ) (era year month day : ℤ) : Prop where
  eq : days + 719468 = era * 146097 + (startOfYear year + (startOfMonth month + day))
  year_mem : 0 ≤ year ∧ year < 400
  month_mem : 0 ≤ month ∧ month ≤ 11
  day_nonneg : 0 ≤ day
  day_lt : month ≤ 10 → day < monthLength month
  leap : month = 11 → day ≤ 28 ∧ (day = 28 → (year + 1) % 4 = 0 ∧
    ((year + 1) % 100 ≠ 0 ∨ (year + 1) % 400 = 0))
  date : dateOfDays days = (year + era * 400 + (if 10 ≤ month then 1 else 0),
    (if month < 10 then month + 3 else month - 9).toNat, (day + 1).toNat)

theorem dateOfDays_eq (days : ℤ) : dateOfDays days =
    let year := yearOfEra ((days + 719468) % 146097)
    let dayOfYear := (days + 719468) % 146097 - startOfYear year
    let month := if monthOf dayOfYear < 10 then monthOf dayOfYear + 3 else monthOf dayOfYear - 9
    (year + (days + 719468) / 146097 * 400 + (if month ≤ 2 then 1 else 0), month.toNat,
      (dayOfYear - startOfMonth (monthOf dayOfYear) + 1).toNat) := rfl

/-- Every day has a date. -/
theorem exists_dated (days : ℤ) : ∃ era year month day, Dated days era year month day := by
  have hmem : 0 ≤ (days + 719468) % 146097 ∧ (days + 719468) % 146097 < 146097 := by omega
  obtain ⟨hyear, hdayOfYear, hleap⟩ := yearOfEra_spec hmem
  obtain ⟨hmonth, hstart, hshort, hlast⟩ := monthOf_spec hdayOfYear
  refine ⟨(days + 719468) / 146097, _, _, _, by omega, hyear, hmonth, hstart, hshort,
    fun h => ?_, ?_⟩
  · rw [hlast h]
    exact ⟨by omega, fun h => hleap (by omega)⟩
  · have hlate {m : ℤ} (hm : 0 ≤ m ∧ m ≤ 11) :
        (if (if m < 10 then m + 3 else m - 9) ≤ 2 then (1 : ℤ) else 0) = if 10 ≤ m then 1 else 0 :=
      if_congr (by split <;> omega) rfl rfl
    rw [dateOfDays_eq]
    dsimp only
    rw [hlate hmonth]

/-- **The date of a day is that day.** -/
theorem daysOfDate_dateOfDays (days : ℤ) :
    daysOfDate (dateOfDays days).1 (dateOfDays days).2.1 (dateOfDays days).2.2 = days := by
  obtain ⟨era, year, month, day, hdated⟩ := exists_dated days
  obtain ⟨heq, hyear, hmonth, hday, -, -, hdate⟩ := hdated
  rw [hdate]
  unfold daysOfDate
  unfold startOfYear startOfMonth at heq
  by_cases hlate : 10 ≤ month
  · have hearly : ¬ month < 10 := by omega
    have hcast : ((month - 9).toNat : ℤ) = month - 9 := Int.toNat_of_nonneg (by omega)
    have htwo : (month - 9).toNat ≤ 2 := by omega
    have hday' : ((day + 1).toNat : ℤ) = day + 1 := Int.toNat_of_nonneg (by omega)
    simp only [if_pos hlate, if_neg hearly, if_pos htwo, hcast, hday']
    omega
  · have hearly : month < 10 := by omega
    have hcast : ((month + 3).toNat : ℤ) = month + 3 := Int.toNat_of_nonneg (by omega)
    have htwo : ¬ (month + 3).toNat ≤ 2 := by omega
    have hday' : ((day + 1).toNat : ℤ) = day + 1 := Int.toNat_of_nonneg (by omega)
    simp only [if_neg hlate, if_pos hearly, if_neg htwo, hcast, hday']
    omega

/-- The months of a date. -/
theorem month_dateOfDays (days : ℤ) :
    1 ≤ (dateOfDays days).2.1 ∧ (dateOfDays days).2.1 ≤ 12 := by
  obtain ⟨era, year, month, day, hdated⟩ := exists_dated days
  obtain ⟨-, -, hmonth, -, -, -, hdate⟩ := hdated
  rw [hdate]
  dsimp only
  split <;> omega

/-- **The date of a day exists.** -/
theorem le_daysInMonth_dateOfDays (days : ℤ) :
    1 ≤ (dateOfDays days).2.2 ∧
      (dateOfDays days).2.2 ≤ daysInMonth (dateOfDays days).1 (dateOfDays days).2.1 := by
  obtain ⟨era, year, month, day, hdated⟩ := exists_dated days
  obtain ⟨-, hyear, hmonth, hday, hlt, hleap, hdate⟩ := hdated
  rw [hdate]
  refine ⟨by dsimp only; omega, ?_⟩
  unfold daysInMonth
  unfold monthLength at hlt
  obtain ⟨hleast, hgreatest⟩ := hmonth
  by_cases hlast : month = 11
  · subst hlast
    obtain ⟨hday', hfeb⟩ := hleap rfl
    have hyear' : isLeapYear (year + era * 400 + 1) = true ∨ day ≤ 27 := by
      rcases (by omega : day = 28 ∨ day ≤ 27) with h28 | hless
      · left
        have h4 : (year + era * 400 + 1) % 4 = (year + 1) % 4 := by omega
        have h100 : (year + era * 400 + 1) % 100 = (year + 1) % 100 := by omega
        have h400 : (year + era * 400 + 1) % 400 = (year + 1) % 400 := by omega
        simp only [isLeapYear, Bool.and_eq_true, Bool.or_eq_true, beq_iff_eq, bne_iff_ne, h4, h100,
          h400]
        exact hfeb h28
      · exact Or.inr hless
    show (day + 1).toNat ≤ if isLeapYear (year + era * 400 + 1) = true then 29 else 28
    rcases hyear' with hleapYear | hless
    · rw [if_pos hleapYear]
      omega
    · split <;> omega
  · have hday' := hlt (by omega)
    interval_cases month <;> simp at hday' hlast ⊢ <;> omega

end AgentSwarm.Timestamp
