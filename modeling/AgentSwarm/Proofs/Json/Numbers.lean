/-
**Numbers are read back.**

A number starts with its sign or a digit and goes on for as long as it can.  Inside a text it is
followed by a comma or by what closes a container, none of which is part of a number, so it is read
there as it is read alone.  What is read is an integer of 64 bits or a finite double, and an integer
of 64 bits is read back from its digits.  For a double this has to be assumed: the digits are the
fewest that round to it, but the reader does not always round to the nearest double.

Main definitions:

* `AgentSwarm.Json.Stops` — what follows a value inside a text;
* `AgentSwarm.Json.readNumeral` — a number with its sign;
* `AgentSwarm.Json.Numeric` — an integer of 64 bits or a finite double;
* `AgentSwarm.Json.ReadsBack` — a double is read back from its digits.

Main results:

* `AgentSwarm.Json.numeric_of_readNumeral` — what is read is an integer of 64 bits or a finite
  double;
* `AgentSwarm.Json.readNumeral_append` — **a number is read inside a text as it is alone**;
* `AgentSwarm.Json.readNumeral_chars` — **numbers are read back**.
-/

import AgentSwarm.Proofs.Decimal.Finite
import AgentSwarm.Proofs.Json.Compact
import AgentSwarm.Proofs.Json.Rest

set_option relaxedAutoImplicit false
set_option autoImplicit false

namespace AgentSwarm.Json

open Decimal

variable {cs rest r : List Char}

/-! ### Where numbers end -/

/-- The text is at its end, at a comma or at what closes a container. -/
def Stops (r : List Char) : Prop := ∀ c ∈ r.head?, c = ',' ∨ c = ']' ∨ c = '}'

theorem stops_nil : Stops [] := fun _ h => nomatch h

theorem stops_cons {c : Char} (h : c = ',' ∨ c = ']' ∨ c = '}') : Stops (c :: r) := by
  intro d hd
  rwa [← Option.some.inj hd]

/-- No part of a number stands where a number stops. -/
theorem Stops.ne {c d : Char} {tail : List Char} (h : Stops rest) (hrest : rest = d :: tail)
    (hc : isNumeral c = true ∨ c = 'E') : d ≠ c := by
  subst hrest
  rintro rfl
  rcases h d rfl with rfl | rfl | rfl <;> rcases hc with hc | hc <;> revert hc <;> decide

theorem Stops.not_isDigit {d : Char} {tail : List Char} (h : Stops rest)
    (hrest : rest = d :: tail) : d.isDigit = false := by
  by_contra hd
  exact h.ne hrest (.inl (isNumeral_of_isDigit (Bool.eq_true_of_not_eq_false hd))) rfl

/-! ### The parts of a number -/

theorem takeDigits_append (h : Stops rest) (cs : List Char) :
    takeDigits (cs ++ rest) = ((takeDigits cs).1, (takeDigits cs).2 ++ rest) := by
  unfold takeDigits
  induction cs with
  | nil =>
      cases hrest : rest with
      | nil => rfl
      | cons d tail => simp [h.not_isDigit hrest]
  | cons c cs ih =>
      cases hc : c.isDigit with
      | true => simpa [hc] using ih
      | false => simp [hc]

theorem readWhole_append {ds : List Char} (h : Stops rest) (hread : readWhole cs = .ok (ds, r)) :
    readWhole (cs ++ rest) = .ok (ds, r ++ rest) := by
  rw [readWhole.eq_def] at hread
  split at hread
  next => cases hread
  next tail =>
      split at hread
      next c more =>
          split at hread
          next => cases hread
          next hc =>
              obtain ⟨rfl, rfl⟩ := Prod.mk.inj (Except.ok.inj hread)
              simp [readWhole, hc]
      next =>
          obtain ⟨rfl, rfl⟩ := Prod.mk.inj (Except.ok.inj hread)
          cases hrest : rest with
          | nil => rfl
          | cons d more => simp [readWhole, h.not_isDigit hrest]
  next c tail hzero =>
      split at hread
      next hc =>
          have hdigits := Except.ok.inj hread
          have happend := takeDigits_append h (c :: tail)
          rw [hdigits] at happend
          rw [List.cons_append] at happend ⊢
          rw [readWhole]
          · rw [if_pos hc, happend]
          · exact hzero
      next => cases hread

theorem readFraction_append {f : Option (List Char)} (h : Stops rest)
    (hread : readFraction cs = .ok (f, r)) : readFraction (cs ++ rest) = .ok (f, r ++ rest) := by
  rw [readFraction.eq_def] at hread
  split at hread
  next tail =>
      dsimp only at hread
      split at hread
      next => cases hread
      next hsome =>
          obtain ⟨rfl, rfl⟩ := Prod.mk.inj (Except.ok.inj hread)
          rw [List.cons_append, readFraction, takeDigits_append h]
          dsimp only
          rw [if_neg hsome]
  next hpoint =>
      obtain ⟨rfl, rfl⟩ := Prod.mk.inj (Except.ok.inj hread)
      rw [readFraction]
      intro tail htail
      cases hcs : cs with
      | nil =>
          rw [hcs, List.nil_append] at htail
          exact h.ne htail (.inl rfl) rfl
      | cons c more =>
          rw [hcs, List.cons_append] at htail
          obtain ⟨rfl, -⟩ := List.cons.inj htail
          exact hpoint _ hcs

/-- The digits of an exponent, whose sign has been read. -/
theorem exponentDigits_append {negative : Bool} {digits : List Char} {fault fault' : Fault}
    {e : Option (Bool × List Char)} (h : Stops rest)
    (hread : (if (takeDigits digits).1.isEmpty then .error fault
      else .ok (some (negative, (takeDigits digits).1), (takeDigits digits).2)) =
        Except.ok (e, r)) :
    (if (takeDigits (digits ++ rest)).1.isEmpty then .error fault'
      else .ok (some (negative, (takeDigits (digits ++ rest)).1),
        (takeDigits (digits ++ rest)).2)) = Except.ok (e, r ++ rest) := by
  rw [takeDigits_append h]
  split at hread
  next => cases hread
  next hsome =>
      obtain ⟨rfl, rfl⟩ := Prod.mk.inj (Except.ok.inj hread)
      rw [if_neg hsome]

theorem readExponent_append {e : Option (Bool × List Char)} (h : Stops rest)
    (hread : readExponent cs = .ok (e, r)) : readExponent (cs ++ rest) = .ok (e, r ++ rest) := by
  cases cs with
  | nil =>
      obtain ⟨rfl, rfl⟩ := Prod.mk.inj (Except.ok.inj hread)
      cases hrest : rest with
      | nil => rfl
      | cons d tail =>
          have hmark : ¬ (d = 'e' ∨ d = 'E') := by
            rintro (hd | hd)
            · exact h.ne hrest (.inl rfl) hd
            · exact h.ne hrest (.inr rfl) hd
          simp [readExponent, hmark]
  | cons c cs =>
      rw [List.cons_append]
      unfold readExponent at hread ⊢
      dsimp only at hread ⊢
      split at hread
      next hmark =>
          rw [if_pos hmark]
          cases cs with
          | nil => cases hread
          | cons d cs =>
              rw [List.cons_append]
              split at hread
              next sign more heq =>
                  obtain ⟨rfl, rfl⟩ := List.cons.inj heq
                  exact exponentDigits_append h hread
              next sign more heq =>
                  obtain ⟨rfl, rfl⟩ := List.cons.inj heq
                  exact exponentDigits_append h hread
              next hplus hminus =>
                  split
                  next heq => exact absurd (List.cons.inj heq).1 (fun hd => hplus _ (by rw [hd]))
                  next heq => exact absurd (List.cons.inj heq).1 (fun hd => hminus _ (by rw [hd]))
                  next => exact exponentDigits_append h hread
      next hmark =>
          obtain ⟨rfl, rfl⟩ := Prod.mk.inj (Except.ok.inj hread)
          rw [if_neg hmark, List.cons_append]

theorem readLiteral_append {negative : Bool} {l : Literal} (h : Stops rest)
    (hread : readLiteral negative cs = .ok (l, r)) :
    readLiteral negative (cs ++ rest) = .ok (l, r ++ rest) := by
  obtain ⟨⟨whole, r₁⟩, hwhole, hread⟩ := bind_eq_ok.1 hread
  obtain ⟨⟨fraction, r₂⟩, hfraction, hread⟩ := bind_eq_ok.1 hread
  obtain ⟨⟨exponent, r₃⟩, hexponent, hread⟩ := bind_eq_ok.1 hread
  obtain ⟨rfl, rfl⟩ := Prod.mk.inj (Except.ok.inj hread)
  refine bind_eq_ok.2 ⟨_, readWhole_append h hwhole, ?_⟩
  refine bind_eq_ok.2 ⟨_, readFraction_append h hfraction, ?_⟩
  exact bind_eq_ok.2 ⟨_, readExponent_append h hexponent, rfl⟩

theorem readNumber_append {negative : Bool} {v : Json} (h : Stops rest)
    (hread : readNumber negative cs = .ok (v, r)) :
    readNumber negative (cs ++ rest) = .ok (v, r ++ rest) := by
  obtain ⟨⟨literal, more⟩, hliteral, hread⟩ := bind_eq_ok.1 hread
  refine bind_eq_ok.2 ⟨_, readLiteral_append h hliteral, ?_⟩
  dsimp only at hread ⊢
  split at hread
  next hvalue =>
      obtain ⟨rfl, rfl⟩ := Prod.mk.inj (Except.ok.inj hread)
      rfl
  next => cases hread

/-! ### What is read -/

/-- An integer that fits 64 bits, signed or not. -/
def InRange (n : ℤ) : Prop := -2 ^ 63 ≤ n ∧ n < 2 ^ 64

/-- A number that a text can hold. -/
def Numeric : Json → Prop
  | .int n => InRange n
  | .real x => x.isFinite = true
  | _ => False

theorem leadingWord_le {w : ℕ} (h : w ≤ maxWord) (ds : List Char) :
    (leadingWord w ds).1 ≤ maxWord := by
  induction ds generalizing w with
  | nil => exact h
  | cons c ds ih =>
      rw [leadingWord]
      split
      next hfit => exact ih hfit
      next => exact h

theorem isFinite_scaleByTen {fuel : ℕ} {x y : Float} {e : ℤ} (hx : x.isFinite = true)
    (h : scaleByTen fuel x e = some y) : y.isFinite = true := by
  induction fuel generalizing x e with
  | zero =>
      obtain rfl := Option.some.inj h
      exact hx
  | succ fuel ih =>
      rw [scaleByTen] at h
      split at h
      next hplace =>
          dsimp only at h
          split at h
          next =>
              split at h
              next => cases h
              next hinf =>
                  obtain rfl := Option.some.inj h
                  exact isFinite_mul hx (isFinite_power hplace) (Bool.eq_false_of_not_eq_true hinf)
          next =>
              obtain rfl := Option.some.inj h
              exact isFinite_div_power hx (by omega) hplace
      split at h
      next =>
          obtain rfl := Option.some.inj h
          exact hx
      split at h
      next => cases h
      next => exact ih (isFinite_div_power hx (by decide) le_rfl) h

theorem isFinite_scaledWord {w : ℕ} {e : ℤ} {y : Float} (h : scaledWord w e = some y) :
    y.isFinite = true :=
  isFinite_scaleByTen (isFinite_toFloat _) h

/-- The double of a literal is finite. -/
theorem Literal.isFinite_double {l : Literal} {x : Float} (h : l.double = .ok x) :
    x.isFinite = true := by
  unfold Literal.double at h
  extract_lets inRange signed at h
  have hrange : ∀ {w : ℕ} {e : ℤ} {y : Float}, inRange (scaledWord w e) = .ok y →
      y.isFinite = true := by
    intro w e y hy
    simp only [inRange] at hy
    split at hy
    next hword =>
        obtain rfl := Except.ok.inj hy
        exact isFinite_scaledWord hword
    next => cases hy
  have hsigned : ∀ {y : Float}, y.isFinite = true → signed y = .ok x → x.isFinite = true := by
    intro y hy hx
    obtain rfl := Except.ok.inj hx
    split
    · exact isFinite_neg hy
    · exact hy
  -- the word and the digits behind the point only matter through the scaled word
  split at h
  split at h
  extract_lets place at h
  split at h
  next =>
      obtain ⟨y, hy, h⟩ := bind_eq_ok.1 h
      exact hsigned (hrange hy) h
  split at h
  next =>
      obtain ⟨y, hy, h⟩ := bind_eq_ok.1 h
      exact hsigned (hrange hy) h
  next =>
      obtain ⟨y, hy, h⟩ : ∃ y, y = 0.0 ∧ signed y = .ok x := by
        split at h
        next => cases h
        next => exact ⟨_, rfl, h⟩
      exact hsigned (hy ▸ by decide +kernel) h

/-- **What is read is an integer of 64 bits or a finite double.** -/
theorem Literal.numeric_value {l : Literal} {v : Json} (h : l.value = .ok v) : Numeric v := by
  have hword : (leadingWord 0 l.whole).1 ≤ maxWord := leadingWord_le (Nat.zero_le _) _
  have hmax : maxWord = 2 ^ 64 - 1 := rfl
  unfold Literal.value at h
  generalize leadingWord 0 l.whole = word at h hword
  dsimp only at h
  split at h
  next =>
      split at h
      next =>
          obtain rfl := Except.ok.inj h
          exact ⟨by omega, by omega⟩
      next =>
          split at h
          next =>
              obtain rfl := Except.ok.inj h
              exact isFinite_neg (isFinite_toFloat _)
          next hsmall =>
              obtain rfl := Except.ok.inj h
              have hpow : Nat.pow 2 63 = 2 ^ 63 := rfl
              rw [hpow] at hsmall
              exact ⟨by omega, by omega⟩
  next =>
      cases hdouble : l.double with
      | error unread => rw [hdouble] at h; cases h
      | ok x =>
          rw [hdouble] at h
          obtain rfl := Except.ok.inj h
          exact l.isFinite_double hdouble

theorem numeric_of_readNumber {negative : Bool} {v : Json}
    (h : readNumber negative cs = .ok (v, r)) : Numeric v := by
  obtain ⟨⟨literal, more⟩, -, h⟩ := bind_eq_ok.1 h
  dsimp only at h
  split at h
  next hvalue =>
      obtain ⟨rfl, -⟩ := Prod.mk.inj (Except.ok.inj h)
      exact literal.numeric_value hvalue
  next => cases h

/-! ### Numbers with their signs -/

/-- A number with its sign. -/
def readNumeral : List Char → Except Fault (Json × List Char)
  | '-' :: cs => readNumber true cs
  | cs => readNumber false cs

/-- The text of a number starts here. -/
def StartsNumber (cs : List Char) : Prop := ∃ c tail, cs = c :: tail ∧ (c = '-' ∨ c.isDigit = true)

theorem readNumeral_of_isDigit {c : Char} (h : c.isDigit = true) :
    readNumeral (c :: cs) = readNumber false (c :: cs) := by
  rw [readNumeral]
  intro tail heq
  rw [(List.cons.inj heq).1] at h
  cases h

/-- **A number is read inside a text as it is alone.** -/
theorem readNumeral_append {v : Json} (hstart : StartsNumber cs) (h : Stops rest)
    (hread : readNumeral cs = .ok (v, r)) : readNumeral (cs ++ rest) = .ok (v, r ++ rest) := by
  obtain ⟨c, tail, rfl, rfl | hc⟩ := hstart
  · exact readNumber_append h hread
  · rw [readNumeral_of_isDigit hc] at hread
    rw [List.cons_append, readNumeral_of_isDigit hc]
    exact readNumber_append h hread

theorem not_isSpace_of_isDigit {c : Char} (h : c.isDigit = true) : isSpace c = false := by
  by_contra hc
  simp only [isSpace, Bool.not_eq_false, Bool.or_eq_true, beq_iff_eq] at hc
  rcases hc with ((rfl | rfl) | rfl) | rfl <;> cases h

theorem StartsNumber.skipSpace (h : StartsNumber cs) : skipSpace cs = cs := by
  obtain ⟨c, tail, rfl, rfl | hc⟩ := h
  · rfl
  · simp [Json.skipSpace, not_isSpace_of_isDigit hc]

/-- A digit starts no other kind of value. -/
theorem ne_of_isDigit {c d : Char} (hd : d.isDigit = false) (h : c.isDigit = true) : c ≠ d := by
  rintro rfl
  rw [hd] at h
  cases h

theorem readValueAt_numeral {fuel depth : ℕ} (h : StartsNumber cs) :
    readValueAt (fuel + 1) depth cs = readNumeral cs := by
  rw [readValueAt, h.skipSpace]
  obtain ⟨c, tail, rfl, rfl | hc⟩ := h
  · rfl
  · rw [readNumeral_of_isDigit hc]
    simp [ne_of_isDigit _ hc, hc]

/-! ### Integers -/

theorem leadingWord_eq {ds : List Char} {w : ℕ} (h : Nat.ofDigitChars 10 ds w ≤ maxWord) :
    leadingWord w ds = (Nat.ofDigitChars 10 ds w, []) := by
  induction ds generalizing w with
  | nil => rfl
  | cons c ds ih =>
      have hnext : w * 10 + digitValue c = 10 * w + (c.toNat - '0'.toNat) := by
        rw [digitValue, Nat.mul_comm]
        rfl
      rw [Nat.ofDigitChars_cons] at h ⊢
      rw [leadingWord, hnext, if_pos ((le_ofDigitChars _ _).trans h), ih h]

theorem natChars_ne_zero_cons {n : ℕ} (hn : n ≠ 0) : ∀ tail, natChars n ≠ '0' :: tail := by
  induction n using Nat.strongRecOn with
  | ind n ih =>
      intro tail h
      rw [natChars, Nat.toDigits_eq_if (by decide)] at h
      split at h
      next hlt =>
          have hdigits : ∀ d < 10, d ≠ 0 → Nat.digitChar d ≠ '0' := by decide
          exact hdigits n hlt hn (List.cons.inj h).1
      next hge =>
          obtain ⟨c, ds, hds⟩ := List.exists_cons_of_ne_nil (natChars_ne_nil (n := n / 10))
          have hhead : natChars (n / 10) = '0' :: ds := by
            rw [natChars] at hds
            rw [hds, List.cons_append] at h
            rw [natChars, hds, (List.cons.inj h).1]
          exact ih (n / 10) (by omega) (by omega) ds hhead

theorem takeDigits_natChars (n : ℕ) : takeDigits (natChars n) = (natChars n, []) := by
  have hall : ∀ c ∈ natChars n, c.isDigit = true := fun _ => isDigit_of_mem_natChars
  rw [takeDigits, List.takeWhile_eq_self_iff.2 hall, List.dropWhile_eq_nil_iff.2 hall]

theorem readLiteral_natChars (negative : Bool) (n : ℕ) :
    readLiteral negative (natChars n) = .ok (⟨negative, natChars n, none, none⟩, []) := by
  have hwhole : readWhole (natChars n) = .ok (natChars n, []) := by
    by_cases hn : n = 0
    · subst hn
      rfl
    · obtain ⟨c, ds, hds⟩ := List.exists_cons_of_ne_nil (natChars_ne_nil (n := n))
      have hc : c.isDigit = true := isDigit_of_mem_natChars (n := n) (by simp [hds])
      rw [hds, readWhole, if_pos hc, ← hds, takeDigits_natChars]
      rintro rfl
      exact natChars_ne_zero_cons hn ds hds
  refine bind_eq_ok.2 ⟨_, hwhole, ?_⟩
  exact bind_eq_ok.2 ⟨_, rfl, bind_eq_ok.2 ⟨_, rfl, rfl⟩⟩

theorem value_natChars {negative : Bool} {n : ℕ} (h : n ≤ maxWord) :
    (⟨negative, natChars n, none, none⟩ : Literal).value =
      if !negative then .ok (.int n)
      else if n = 0 ∨ n > Nat.pow 2 63 then .ok (.real (-(n.toUInt64.toFloat)))
      else .ok (.int (-(n : ℤ))) := by
  have hn : Nat.ofDigitChars 10 (natChars n) 0 = n := digitsValue_natChars n
  have hword : leadingWord 0 (natChars n) = (n, []) := by
    rw [leadingWord_eq (hn.symm ▸ h), hn]
  rw [Literal.value]
  dsimp only
  rw [hword]
  rfl

/-- Integers of 64 bits are read back. -/
theorem readNumeral_intChars {n : ℤ} (h : InRange n) :
    readNumeral (intChars n) = .ok (.int n, []) := by
  have hmax : maxWord = 2 ^ 64 - 1 := rfl
  obtain ⟨hlow, hhigh⟩ := h
  cases n with
  | ofNat n =>
      have hn : n ≤ maxWord := by
        rw [hmax]
        rw [Int.ofNat_eq_natCast] at hhigh
        omega
      obtain ⟨c, ds, hds⟩ := List.exists_cons_of_ne_nil (natChars_ne_nil (n := n))
      have hc : c.isDigit = true := isDigit_of_mem_natChars (n := n) (by simp [hds])
      rw [intChars, hds, readNumeral_of_isDigit hc, ← hds]
      refine bind_eq_ok.2 ⟨_, readLiteral_natChars false n, ?_⟩
      dsimp only
      rw [value_natChars hn]
      rfl
  | negSucc n =>
      have hn : n + 1 ≤ 2 ^ 63 := by
        rw [Int.negSucc_eq] at hlow
        omega
      have hpow : Nat.pow 2 63 = 2 ^ 63 := rfl
      rw [intChars, readNumeral]
      refine bind_eq_ok.2 ⟨_, readLiteral_natChars true (n + 1), ?_⟩
      dsimp only
      rw [value_natChars (by omega), if_neg (by simp), if_neg (by rw [hpow]; omega)]
      rfl

/-! ### Numbers -/

/-- A double is read back from its digits. -/
def ReadsBack (x : Float) : Prop := readNumeral (chars (.real x : Json)) = .ok (.real x, [])

instance (x : Float) : Decidable (ReadsBack x) :=
  decidable_of_bool (match readNumeral (chars (.real x : Json)) with
    | .ok (.real y, []) => decide (y = x)
    | _ => false) <| by
  unfold ReadsBack
  split
  next y h => simp [h]
  next h => exact iff_of_false Bool.false_ne_true (h x)

theorem startsNumber_intChars (n : ℤ) : StartsNumber (intChars n) := by
  cases n with
  | ofNat n =>
      obtain ⟨c, ds, hds⟩ := List.exists_cons_of_ne_nil (natChars_ne_nil (n := n))
      exact ⟨c, ds, hds, .inr (isDigit_of_mem_natChars (n := n) (by simp [hds]))⟩
  | negSucc n => exact ⟨'-', _, rfl, .inl rfl⟩

/-- A text without a sign starts with a digit. -/
theorem exists_digit_chars (form : Notation) (d : Digits) :
    ∃ c tail, form.chars d = c :: tail ∧ c.isDigit = true := by
  obtain ⟨c, ds, hds⟩ := List.exists_cons_of_ne_nil (natChars_ne_nil (n := d.digits))
  have hc : c.isDigit = true := isDigit_of_mem_natChars (n := d.digits) (by simp [hds])
  unfold Notation.chars plainChars scientificChars
  rw [hds]
  dsimp only
  split
  · exact ⟨'0', _, rfl, rfl⟩
  split
  · split
    · exact ⟨'0', _, rfl, rfl⟩
    split
    · exact ⟨c, _, rfl, hc⟩
    · exact ⟨c, _, rfl, hc⟩
  · exact ⟨c, _, rfl, hc⟩

theorem startsNumber_ofFloat (form : Notation) (x : Float) : StartsNumber (form.ofFloat x) := by
  unfold Notation.ofFloat
  dsimp only
  split
  · exact ⟨'-', _, rfl, .inl rfl⟩
  · obtain ⟨c, tail, hc, hdigit⟩ := exists_digit_chars form (Binary.ofFloat x).shortest
    exact ⟨c, tail, hc, .inr hdigit⟩

theorem startsNumber_ofSingle (form : Notation) (x : Float32) : StartsNumber (form.ofSingle x) := by
  unfold Notation.ofSingle
  dsimp only
  split
  · exact ⟨'-', _, rfl, .inl rfl⟩
  · obtain ⟨c, tail, hc, hdigit⟩ := exists_digit_chars form (Binary.ofFloat32 x).shortest
    exact ⟨c, tail, hc, .inr hdigit⟩

theorem startsNumber_chars {v : Json} (h : Numeric v) : StartsNumber (chars v) := by
  cases v with
  | int n => exact startsNumber_intChars n
  | real x => exact chars_real h ▸ startsNumber_ofFloat _ x
  | null | bool | str | arr | obj => exact h.elim

/-- **Numbers are read back**, integers of 64 bits and doubles that are read back alone. -/
theorem readNumeral_chars {v : Json} (h : Numeric v) (hreal : ∀ x, v = .real x → ReadsBack x)
    (hrest : Stops rest) : readNumeral (chars v ++ rest) = .ok (v, rest) := by
  have halone : readNumeral (chars v) = .ok (v, []) := by
    cases v with
    | int n => exact readNumeral_intChars h
    | real x => exact hreal x rfl
    | null | bool | str | arr | obj => exact h.elim
  simpa using readNumeral_append (startsNumber_chars h) hrest halone

end AgentSwarm.Json
