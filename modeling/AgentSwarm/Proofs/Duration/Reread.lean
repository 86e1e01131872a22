/-
**Durations are read back.**

A duration is written as the sum of its parts, each a number with a unit, with a blank between
neighbours.  The reader adds the parts up one after the other; it gives up where a sum no longer fits
a 64-bit word of seconds, and so no duration that was read is too long to be read again.  The parts of
a duration are its digits in a mixed radix, from years to nanoseconds, so their sum is the duration.

Main definitions:

* `AgentSwarm.Duration.pieces` — the numbers of a duration and their units;
* `AgentSwarm.Duration.isUnitLetter` — a character of a unit, at which a number stops.

Main results:

* `AgentSwarm.Duration.le_longest_of_parse` — what is read is not too long;
* `AgentSwarm.Duration.readParts_joinWith` — the parts are added up;
* `AgentSwarm.Duration.parse_text` — **durations that are not too long are read back**.
-/

import AgentSwarm.Duration
import AgentSwarm.Proofs.Decimal.Notation
import AgentSwarm.Proofs.Text.Blank

set_option relaxedAutoImplicit false
set_option autoImplicit false

namespace AgentSwarm.Duration

open Decimal

/-! ### What is read is not too long -/

/-- Seconds that fit a word, and nanoseconds below a second. -/
def Fits (total : ℕ × ℕ) : Prop := total.1 < UInt64.size ∧ total.2 < 1000000000

theorem inWord_eq_some {n m : ℕ} (h : inWord n = some m) : m = n ∧ n < UInt64.size := by
  unfold inWord at h
  split at h
  next hn => exact ⟨(Option.some.inj h).symm, hn⟩
  next => cases h

theorem inWord_of_lt {n : ℕ} (h : n < UInt64.size) : inWord n = some n := if_pos h

theorem fits_addPart {total part sum : ℕ × ℕ} (h : addPart total part = some sum) : Fits sum := by
  simp only [addPart, Option.bind_eq_bind, Option.bind_eq_some_iff] at h
  obtain ⟨nanos, -, seconds, -, seconds', hseconds, h⟩ := h
  obtain rfl := Option.some.inj h
  obtain ⟨rfl, hlt⟩ := inWord_eq_some hseconds
  exact ⟨hlt, Nat.mod_lt _ (by decide)⟩

theorem fits_addUnits {total sum : ℕ × ℕ} {n : ℕ} {fraction : Option Fraction} {word : List Char}
    (h : addUnits total n fraction word = some sum) : Fits sum := by
  simp only [addUnits, Option.bind_eq_bind, Option.bind_eq_some_iff] at h
  obtain ⟨u, -, a, -, b, -, whole, hwhole, h⟩ := h
  cases fraction with
  | none =>
      obtain rfl := Option.some.inj h
      exact fits_addPart hwhole
  | some f =>
      simp only [Option.bind_eq_some_iff] at h
      obtain ⟨size, -, seconds, -, nanos, -, h⟩ := h
      exact fits_addPart h

theorem fits_readParts {fuel : ℕ} {total sum : ℕ × ℕ} {cs : List Char} (htotal : Fits total)
    (h : readParts fuel total cs = some sum) : Fits sum := by
  induction fuel generalizing total cs with
  | zero => cases h
  | succ fuel ih =>
      rw [readParts] at h
      split at h
      next =>
          obtain rfl := Option.some.inj h
          exact htotal
      next =>
          split at h
          next => cases h
          next =>
              simp only [Option.bind_eq_bind, Option.bind_eq_some_iff] at h
              obtain ⟨number, -, h⟩ := h
              split at h
              next =>
                  simp only [Option.bind_eq_some_iff] at h
                  obtain ⟨digits, -, fraction, -, word, -, sum, hsum, h⟩ := h
                  exact ih (fits_addUnits hsum) h
              next =>
                  simp only [Option.bind_eq_some_iff] at h
                  obtain ⟨fraction, -, word, -, sum, hsum, h⟩ := h
                  exact ih (fits_addUnits hsum) h

/-- What is read is not too long. -/
theorem le_longest_of_parse {s : String} {d : Duration} (h : parse s = some d) :
    d.nanos ≤ longest.nanos := by
  have hsize : UInt64.size = 18446744073709551616 := rfl
  unfold parse at h
  split at h
  next =>
      obtain rfl := Option.some.inj h
      exact Nat.zero_le _
  split at h
  next => cases h
  next =>
      obtain ⟨⟨seconds, nanos⟩, hparts, rfl⟩ := Option.map_eq_some_iff.1 h
      obtain ⟨hseconds, hnanos⟩ := fits_readParts ⟨by decide, by decide⟩ hparts
      show seconds * 1000000000 + nanos ≤ (UInt64.size - 1) * 1000000000 + 999999999
      dsimp only at hseconds hnanos
      omega

/-! ### Reading a part -/

section Parts

variable {n m fuel : ℕ} {ds word tail : List Char} {total : ℕ × ℕ} {u : TimeUnit}

/-- A character of a unit, at which a number stops. -/
def isUnitLetter (c : Char) : Bool := isUnitChar c && !c.isDigit && !Text.isBlank c && c != '.'

/-- The digits of a number are read up to its unit. -/
theorem readNumber_digits (hds : ∀ c ∈ ds, c.isDigit = true)
    (hword : ∀ c ∈ word, isUnitLetter c = true) (hne : word ≠ [])
    (h : Nat.ofDigitChars 10 ds n < UInt64.size) :
    readNumber n (ds ++ (word ++ tail)) = some (Nat.ofDigitChars 10 ds n, word ++ tail) := by
  induction ds generalizing n with
  | nil =>
      obtain ⟨c, letters, rfl⟩ := List.exists_cons_of_ne_nil hne
      have hc := hword c List.mem_cons_self
      simp only [isUnitLetter, Bool.and_eq_true, Bool.not_eq_true'] at hc
      simp [readNumber, hc]
  | cons c ds ih =>
      obtain ⟨hc, hds⟩ := List.forall_mem_cons.1 hds
      have hnext : n * 10 + (c.toNat - 48) = 10 * n + (c.toNat - '0'.toNat) := by
        rw [Nat.mul_comm]
        rfl
      rw [Nat.ofDigitChars_cons, ← hnext] at h ⊢
      have hlt := lt_of_le_of_lt (le_ofDigitChars ds _) h
      rw [List.cons_append, readNumber, if_pos hc, inWord_of_lt hlt]
      exact ih hds h

/-- What follows a part. -/
def EndsPart (tail : List Char) : Prop := tail = [] ∨ ∃ rest, tail = ' ' :: rest

theorem readUnit_letters (hword : ∀ c ∈ word, isUnitLetter c = true) (htail : EndsPart tail) :
    readUnit (word ++ tail) = some (word, tail) := by
  induction word with
  | nil =>
      rcases htail with rfl | ⟨rest, rfl⟩
      · rfl
      · rfl
  | cons c word ih =>
      obtain ⟨hc, hword⟩ := List.forall_mem_cons.1 hword
      simp only [isUnitLetter, Bool.and_eq_true, Bool.not_eq_true'] at hc
      rw [List.cons_append, readUnit, ih hword]
      simp [hc]

/-- A number of units is added to a total that stays within bounds. -/
theorem addUnits_eq (hunit : TimeUnit.ofWord? (String.ofList word) = some u)
    (hseconds : total.1 + n * u.size.1 < UInt64.size)
    (hnanos : total.2 + n * u.size.2 < 1000000000) :
    addUnits total n none word = some (total.1 + n * u.size.1, total.2 + n * u.size.2) := by
  have hsize : UInt64.size = 18446744073709551616 := rfl
  have hparts : addPart total (n * u.size.1, n * u.size.2) =
      some (total.1 + n * u.size.1, total.2 + n * u.size.2) := by
    have hcarry : (total.2 + n * u.size.2) / 1000000000 = 0 := Nat.div_eq_of_lt hnanos
    simp only [addPart, inWord_of_lt (by omega : total.2 + n * u.size.2 < UInt64.size), hcarry,
      Nat.add_zero, inWord_of_lt (by omega : n * u.size.1 < UInt64.size), inWord_of_lt hseconds,
      Nat.mod_eq_of_lt hnanos, Option.bind_eq_bind, Option.bind_some, Option.pure_def]
  simp only [addUnits, hunit, inWord_of_lt (by omega : n * u.size.1 < UInt64.size),
    inWord_of_lt (by omega : n * u.size.2 < UInt64.size), hparts, Option.bind_eq_bind,
    Option.bind_some, Option.pure_def]

/-- The text of a number and its unit. -/
def pieceChars (p : ℕ × List Char) : List Char := natChars p.1 ++ p.2

/-- A number that fits a word, and the letters of a unit. -/
def Proper (p : ℕ × List Char) : Prop :=
  p.1 < UInt64.size ∧ p.2 ≠ [] ∧ ∀ c ∈ p.2, isUnitLetter c = true

/-- A part is read and added. -/
theorem readParts_piece {p : ℕ × List Char} (hp : Proper p) (htail : EndsPart tail) :
    readParts (fuel + 1) total (pieceChars p ++ tail) =
      (addUnits total p.1 none p.2).bind fun sum => readParts fuel sum tail := by
  obtain ⟨hlt, hne, hletters⟩ := hp
  obtain ⟨c, ds, hds⟩ := List.exists_cons_of_ne_nil (natChars_ne_nil (n := p.1))
  have hall : ∀ d ∈ c :: ds, d.isDigit = true :=
    fun d hd => isDigit_of_mem_natChars (n := p.1) (hds ▸ hd)
  obtain ⟨hc, hall⟩ := List.forall_mem_cons.1 hall
  have hvalue : Nat.ofDigitChars 10 ds (c.toNat - 48) = p.1 := by
    have := digitsValue_natChars p.1
    rw [hds, digitsValue, Nat.ofDigitChars_cons, Nat.mul_zero, Nat.zero_add] at this
    exact this
  have hnumber : readNumber (c.toNat - 48) (ds ++ (p.2 ++ tail)) = some (p.1, p.2 ++ tail) := by
    rw [readNumber_digits hall hletters hne (by rw [hvalue]; exact hlt), hvalue]
  have htrim : Text.trimStart (c :: (ds ++ (p.2 ++ tail))) = c :: (ds ++ (p.2 ++ tail)) :=
    List.dropWhile_cons_of_neg (by simp [Text.not_isBlank_of_isDigit hc])
  rw [pieceChars, hds, List.cons_append, List.cons_append, List.append_assoc, readParts, htrim]
  simp only [hc, Bool.not_true, Bool.false_eq_true, if_false, hnumber, Option.bind_eq_bind,
    Option.bind_some]
  -- a unit does not start with a point
  obtain ⟨l, letters, hl⟩ := List.exists_cons_of_ne_nil hne
  have hpoint : l ≠ '.' := by
    have := hletters l (by simp [hl])
    simp only [isUnitLetter, Bool.and_eq_true, bne_iff_ne] at this
    exact this.2
  have hunit := readUnit_letters hletters htail
  split
  next heq =>
      rw [hl, List.cons_append] at heq
      exact absurd (List.cons.inj heq).1 hpoint
  next =>
      simp only [Option.pure_def, Option.bind_some, hunit]

theorem readParts_blank : readParts fuel total (' ' :: tail) = readParts fuel total tail := by
  cases fuel with
  | zero => rfl
  | succ fuel =>
      have htrim : Text.trimStart (' ' :: tail) = Text.trimStart tail := rfl
      rw [readParts, readParts, htrim]

/-- **The parts of a text are added up.** -/
theorem readParts_joinWith {ps : List (ℕ × List Char)} (hps : ∀ p ∈ ps, Proper p)
    (hfuel : ps.length < fuel) :
    readParts fuel total (Text.joinWith [' '] (ps.map pieceChars)) =
      ps.foldlM (fun sum p => addUnits sum p.1 none p.2) total := by
  induction ps generalizing fuel total with
  | nil =>
      obtain ⟨fuel, rfl⟩ := Nat.exists_eq_add_of_le' (by omega : 1 ≤ fuel)
      rfl
  | cons p ps ih =>
      obtain ⟨fuel, rfl⟩ := Nat.exists_eq_add_of_le' (by omega : 1 ≤ fuel)
      obtain ⟨hp, hps⟩ := List.forall_mem_cons.1 hps
      rw [List.length_cons] at hfuel
      rw [List.foldlM_cons]
      cases ps with
      | nil =>
          have hpiece : readParts (fuel + 1) total (pieceChars p ++ []) = _ :=
            readParts_piece hp (.inl rfl)
          rw [List.append_nil] at hpiece
          rw [List.map_singleton, Text.joinWith, hpiece]
          exact Option.bind_congr fun sum _ => ih hps (by omega)
      | cons q ps =>
          rw [List.map_cons, List.map_cons, Text.joinWith, List.append_assoc]
          refine (readParts_piece hp (.inr ⟨_, rfl⟩)).trans (Option.bind_congr fun sum _ => ?_)
          exact readParts_blank.trans (ih hps (by omega))

end Parts

/-! ### The parts of a duration -/

/-- A number with its unit, or nothing for zero. -/
def piece (n : ℕ) (word : List Char) : List (ℕ × List Char) := if n = 0 then [] else [(n, word)]

/-- The letters of a unit that has a plural. -/
def plural (n : ℕ) (word : List Char) : List Char := word ++ if 1 < n then ['s'] else []

/-- Numbers of every unit that is written, with the units and how these are written. -/
def amountsOf (years months days hours minutes seconds millis micros nanos : ℕ) :
    List (ℕ × TimeUnit × List Char) :=
  [(years, .year, plural years "year".toList), (months, .month, plural months "month".toList),
    (days, .day, plural days "day".toList), (hours, .hour, "h".toList),
    (minutes, .minute, "m".toList), (seconds, .second, "s".toList),
    (millis, .millisecond, "ms".toList), (micros, .microsecond, "us".toList),
    (nanos, .nanosecond, "ns".toList)]

/-- The numbers of a duration, its digits in the radix of the units. -/
def amounts (d : Duration) : List (ℕ × TimeUnit × List Char) :=
  let seconds := d.nanos / 1000000000
  let nanos := d.nanos % 1000000000
  let inYear := seconds % 31557600
  let inMonth := inYear % 2630016
  let inDay := inMonth % 86400
  amountsOf (seconds / 31557600) (inYear / 2630016) (inMonth / 86400) (inDay / 3600)
    (inDay % 3600 / 60) (inDay % 60) (nanos / 1000000) (nanos / 1000 % 1000) (nanos % 1000)

/-- The numbers of a duration that are not zero. -/
def pieces (d : Duration) : List (ℕ × List Char) := d.amounts.flatMap fun a => piece a.1 a.2.2

theorem partText_true (n : ℕ) (word : String) :
    partText n word true = (piece n (plural n word.toList)).map pieceChars := by
  unfold partText piece plural
  split
  · rfl
  · by_cases h : 1 < n <;> simp [pieceChars, h]

theorem partText_false (n : ℕ) (word : String) :
    partText n word false = (piece n word.toList).map pieceChars := by
  unfold partText piece
  split
  · rfl
  · simp [pieceChars]

theorem parts_eq (d : Duration) : d.parts = d.pieces.map pieceChars := by
  unfold parts pieces amounts amountsOf
  simp only [List.flatMap_cons, List.flatMap_nil, List.append_nil, List.append_assoc,
    List.map_append, partText_true, partText_false]

/-- Numbers with their units are added up. -/
theorem foldlM_amounts {as : List (ℕ × TimeUnit × List Char)} {total : ℕ × ℕ}
    (hunits : ∀ a ∈ as, TimeUnit.ofWord? (String.ofList a.2.2) = some a.2.1)
    (hseconds : total.1 + (as.map fun a => a.1 * a.2.1.size.1).sum < UInt64.size)
    (hnanos : total.2 + (as.map fun a => a.1 * a.2.1.size.2).sum < 1000000000) :
    (as.flatMap fun a => piece a.1 a.2.2).foldlM (fun sum p => addUnits sum p.1 none p.2) total =
      some (total.1 + (as.map fun a => a.1 * a.2.1.size.1).sum,
        total.2 + (as.map fun a => a.1 * a.2.1.size.2).sum) := by
  induction as generalizing total with
  | nil => rfl
  | cons a as ih =>
      obtain ⟨n, u, word⟩ := a
      obtain ⟨hunit, hunits⟩ := List.forall_mem_cons.1 hunits
      simp only [List.map_cons, List.sum_cons, ← Nat.add_assoc] at hseconds hnanos ⊢
      have hfirst : (piece n word).foldlM (fun sum p => addUnits sum p.1 none p.2) total =
          some (total.1 + n * u.size.1, total.2 + n * u.size.2) := by
        unfold piece
        split
        next hzero => simp [hzero]
        next =>
            have hfit : total.1 + n * u.size.1 < UInt64.size := by omega
            have hcarry : total.2 + n * u.size.2 < 1000000000 := by omega
            simp only [List.foldlM_cons, List.foldlM_nil, Option.pure_def, Option.bind_eq_bind,
              addUnits_eq hunit hfit hcarry, Option.bind_some]
      rw [List.flatMap_cons, List.foldlM_append, hfirst]
      exact ih hunits hseconds hnanos

/-- The letters of a unit are known, with and without a plural. -/
theorem ofWord?_plural {word : String} {u : TimeUnit} (h : TimeUnit.ofWord? word = some u)
    (hplural : TimeUnit.ofWord? (String.ofList (word.toList ++ ['s'])) = some u) (n : ℕ) :
    TimeUnit.ofWord? (String.ofList (plural n word.toList)) = some u := by
  unfold plural
  split
  · exact hplural
  · rwa [List.append_nil, String.ofList_toList]

theorem ofWord?_amounts (d : Duration) :
    ∀ a ∈ d.amounts, TimeUnit.ofWord? (String.ofList a.2.2) = some a.2.1 := by
  unfold amounts amountsOf
  simp only [List.forall_mem_cons, String.ofList_toList]
  refine ⟨ofWord?_plural ?_ ?_ _, ofWord?_plural ?_ ?_ _, ofWord?_plural ?_ ?_ _, ?_, ?_, ?_, ?_, ?_,
    ?_, nofun⟩
  all_goals decide +kernel

/-- The digits of a number in a mixed radix, of which only the last two bases divide each other. -/
theorem sum_digits (s year month day hour : ℕ) {minute : ℕ} (h : minute ∣ hour) :
    s / year * year + (s % year / month * month + (s % year % month / day * day +
      (s % year % month % day / hour * hour + (s % year % month % day % hour / minute * minute +
        s % year % month % day % minute)))) = s := by
  rw [← Nat.mod_mod_of_dvd _ h, Nat.div_add_mod', Nat.div_add_mod', Nat.div_add_mod',
    Nat.div_add_mod', Nat.div_add_mod']

theorem sum_amountsOf (years months days hours minutes seconds millis micros nanos : ℕ) :
    ((amountsOf years months days hours minutes seconds millis micros nanos).map
        fun a => a.1 * a.2.1.size.1).sum =
      years * 31557600 + (months * 2630016 + (days * 86400 + (hours * 3600 +
        (minutes * 60 + seconds)))) ∧
    ((amountsOf years months days hours minutes seconds millis micros nanos).map
        fun a => a.1 * a.2.1.size.2).sum = millis * 1000000 + (micros * 1000 + nanos) := by
  constructor
  · simp only [amountsOf, List.map_cons, List.map_nil, TimeUnit.size]
    repeat rw [List.sum_cons]
    rw [List.sum_nil]
    omega
  · simp only [amountsOf, List.map_cons, List.map_nil, TimeUnit.size]
    repeat rw [List.sum_cons]
    rw [List.sum_nil]
    omega

theorem sum_amounts (d : Duration) :
    (d.amounts.map fun a => a.1 * a.2.1.size.1).sum = d.nanos / 1000000000 ∧
      (d.amounts.map fun a => a.1 * a.2.1.size.2).sum = d.nanos % 1000000000 := by
  have hnanos (n : ℕ) : n / 1000000 * 1000000 + (n / 1000 % 1000 * 1000 + n % 1000) = n := by omega
  exact ⟨(sum_amountsOf ..).1.trans (sum_digits _ _ _ _ _ (by decide)),
    (sum_amountsOf ..).2.trans (hnanos _)⟩

/-- **The parts of a duration add up to it.** -/
theorem foldlM_pieces {d : Duration} (h : d.nanos ≤ longest.nanos) :
    d.pieces.foldlM (fun sum p => addUnits sum p.1 none p.2) (0, 0) =
      some (d.nanos / 1000000000, d.nanos % 1000000000) := by
  have hsize : UInt64.size = 18446744073709551616 := rfl
  have hlongest : longest.nanos = (UInt64.size - 1) * 1000000000 + 999999999 := rfl
  obtain ⟨hseconds, hnanos⟩ := d.sum_amounts
  refine (foldlM_amounts d.ofWord?_amounts ?_ ?_).trans ?_
  · rw [hseconds]
    omega
  · rw [hnanos]
    omega
  · rw [hseconds, hnanos, Nat.zero_add, Nat.zero_add]

/-! ### Durations are read back -/

theorem mem_pieces {d : Duration} {p : ℕ × List Char} (h : p ∈ d.pieces) :
    p.1 ≠ 0 ∧ ∃ a ∈ d.amounts, p = (a.1, a.2.2) := by
  obtain ⟨a, ha, hp⟩ := List.mem_flatMap.1 h
  unfold piece at hp
  split at hp
  next => cases hp
  next hne =>
      obtain rfl := List.mem_singleton.1 hp
      exact ⟨hne, a, ha, rfl⟩

theorem letters_word {word : String} (hne : word.toList ≠ [])
    (hall : word.toList.all isUnitLetter = true) :
    word.toList ≠ [] ∧ ∀ c ∈ word.toList, isUnitLetter c = true :=
  ⟨hne, List.all_eq_true.1 hall⟩

/-- The letters of a unit, with and without a plural. -/
theorem letters_plural {word : String} (hne : word.toList ≠ [])
    (hall : word.toList.all isUnitLetter = true) (n : ℕ) :
    plural n word.toList ≠ [] ∧ ∀ c ∈ plural n word.toList, isUnitLetter c = true := by
  have h := List.all_eq_true.1 hall
  unfold plural
  split
  · simp only [List.forall_mem_append, List.forall_mem_singleton]
    exact ⟨List.append_ne_nil_of_left_ne_nil hne _, h, by decide +kernel⟩
  · rw [List.append_nil]
    exact ⟨hne, h⟩

theorem proper_pieces {d : Duration} (h : d.nanos ≤ longest.nanos) : ∀ p ∈ d.pieces, Proper p := by
  have hsize : UInt64.size = 18446744073709551616 := rfl
  have hlongest : longest.nanos = (UInt64.size - 1) * 1000000000 + 999999999 := rfl
  have hseconds : d.nanos / 1000000000 < UInt64.size := by omega
  have hnanos : d.nanos % 1000000000 < UInt64.size := by omega
  have hdiv {n : ℕ} (k : ℕ) (hn : n < UInt64.size) : n / k < UInt64.size :=
    lt_of_le_of_lt (Nat.div_le_self n k) hn
  have hmod {n : ℕ} (k : ℕ) (hn : n < UInt64.size) : n % k < UInt64.size :=
    lt_of_le_of_lt (Nat.mod_le n k) hn
  have hnumbers : ∀ a ∈ d.amounts, a.1 < UInt64.size := by
    unfold amounts amountsOf
    simp only [List.forall_mem_cons]
    have hday := hmod 86400 (hmod 2630016 (hmod 31557600 hseconds))
    exact ⟨hdiv _ hseconds, hdiv _ (hmod _ hseconds), hdiv _ (hmod _ (hmod _ hseconds)),
      hdiv _ hday, hdiv _ (hmod _ hday), hmod _ hday, hdiv _ hnanos, hmod _ (hdiv _ hnanos),
      hmod _ hnanos, nofun⟩
  have hletters : ∀ a ∈ d.amounts, a.2.2 ≠ [] ∧ ∀ c ∈ a.2.2, isUnitLetter c = true := by
    unfold amounts amountsOf
    simp only [List.forall_mem_cons]
    refine ⟨letters_plural ?_ ?_ _, letters_plural ?_ ?_ _, letters_plural ?_ ?_ _,
      letters_word ?_ ?_, letters_word ?_ ?_, letters_word ?_ ?_, letters_word ?_ ?_,
      letters_word ?_ ?_, letters_word ?_ ?_, nofun⟩
    all_goals decide +kernel
  intro p hp
  obtain ⟨-, a, ha, rfl⟩ := mem_pieces hp
  exact ⟨hnumbers a ha, hletters a ha⟩

/-- Every part takes some room. -/
theorem length_le_joinWith (ps : List (ℕ × List Char)) :
    ps.length ≤ (Text.joinWith [' '] (ps.map pieceChars)).length := by
  have hpos : ∀ p, 0 < (pieceChars p).length := fun p =>
    List.length_pos_of_ne_nil (List.append_ne_nil_of_left_ne_nil natChars_ne_nil _)
  induction ps with
  | nil => exact Nat.zero_le _
  | cons p ps ih =>
      have hp := hpos p
      cases ps with
      | nil => exact hp
      | cons q ps =>
          simp only [List.map_cons, Text.joinWith, List.length_append, List.length_cons] at ih ⊢
          omega

/-- **Durations that are not too long are read back.** -/
theorem parse_text {d : Duration} (h : d.nanos ≤ longest.nanos) : parse d.text = some d := by
  unfold text
  split
  next hzero =>
      obtain rfl : d = zero := by
        cases d
        exact congrArg Duration.mk (beq_iff_eq.1 hzero)
      decide +kernel
  next hne =>
      have hnanos : d.nanos ≠ 0 := fun heq => hne (beq_iff_eq.2 heq)
      rw [parts_eq]
      generalize htext : Text.joinWith [' '] (d.pieces.map pieceChars) = cs
      have hread : readParts (cs.length + 1) (0, 0) cs =
          some (d.nanos / 1000000000, d.nanos % 1000000000) := by
        have hlength := length_le_joinWith d.pieces
        rw [htext] at hlength
        rw [← foldlM_pieces h, ← readParts_joinWith (proper_pieces h) (Nat.lt_succ_of_le hlength),
          htext]
      -- neither the text `0` nor blanks alone are read like this
      have hlone : String.ofList cs ≠ "0" := by
        intro hlone
        have hcs : cs = ['0'] := by
          rw [← String.toList_ofList (l := cs), hlone]
          decide +kernel
        rw [hcs] at hread
        have hnone : readParts (['0'].length + 1) (0, 0) ['0'] = none := by decide +kernel
        rw [hnone] at hread
        cases hread
      have hblank : Text.isAllBlank (String.ofList cs) = false := by
        rw [Text.isAllBlank, String.toList_ofList]
        by_contra hall
        rw [Bool.not_eq_false, List.all_eq_true] at hall
        have htrim : Text.trimStart cs = [] := List.dropWhile_eq_nil_iff.2 hall
        rw [readParts, htrim] at hread
        have hsum := Prod.mk.inj (Option.some.inj hread)
        omega
      rw [parse, if_neg hlone, hblank, if_neg Bool.false_ne_true, String.toList_ofList, hread]
      refine congrArg some (congrArg Duration.mk ?_)
      omega

/-- A duration that was read is read back. -/
theorem parse_text_of_parse {s : String} {d : Duration} (h : parse s = some d) :
    parse d.text = some d :=
  parse_text (le_longest_of_parse h)

end AgentSwarm.Duration
