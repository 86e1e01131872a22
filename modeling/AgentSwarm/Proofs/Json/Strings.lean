/-
**Strings are read back.**

A string is written character by character between quotes.  No escaped character starts with a quote,
and reading undoes escaping one character at a time, so the first quote that is not escaped is the
one that closes the string.  Whatever follows the string is left as it stands.

Main results:

* `AgentSwarm.Json.readStringFrom_escape` — reading undoes the escape of a character;
* `AgentSwarm.Json.readString_quote` — **a string that was written is read**;
* `AgentSwarm.Json.quote_append_inj` — strings have different texts, whatever follows them.
-/

import AgentSwarm.Json.Reader
import AgentSwarm.Json.Writer
import Mathlib.Data.List.Basic

set_option relaxedAutoImplicit false
set_option autoImplicit false

namespace AgentSwarm.Json

variable {got rest : List Char} {fuel : Nat}

/-! ### Characters by number -/

theorem hexValue_digitChar : ∀ d < 16, hexValue (Nat.digitChar d) = some d := by decide

/-- A character below U+0100 is read from its number. -/
theorem readHex_of_lt {n : Nat} (h : n < 256) (rest : List Char) :
    readHex ('0' :: '0' :: hexDigit (n / 16) :: hexDigit n :: rest) = .ok (n, rest) := by
  have hzero : hexValue '0' = some 0 := rfl
  have hhigh : hexValue (hexDigit (n / 16)) = some (n / 16 % 16) :=
    hexValue_digitChar _ (Nat.mod_lt _ (by decide))
  have hlow : hexValue (hexDigit n) = some (n % 16) :=
    hexValue_digitChar _ (Nat.mod_lt _ (by decide))
  have hn : ((0 * 16 + 0) * 16 + n / 16 % 16) * 16 + n % 16 = n := by omega
  simp only [readHex, hzero, hhigh, hlow, hn]

theorem readUnit_of_lt {n : Nat} (h : n < 0xD800) (rest : List Char) :
    readUnit n rest = .ok (Char.ofNat n, rest) := by
  have hlow : isLowSurrogate n = false := by
    rw [isLowSurrogate, Bool.and_eq_false_iff]
    exact .inl (decide_eq_false (by omega))
  have hhigh : isHighSurrogate n = false := by
    rw [isHighSurrogate, Bool.and_eq_false_iff]
    exact .inl (decide_eq_false (by omega))
  simp [readUnit, hlow, hhigh]

/-- A control character is read from its number. -/
theorem readEscape_of_lt {c : Char} (h : c.toNat < 0x20) (rest : List Char) :
    readEscape ('u' :: '0' :: '0' :: hexDigit (c.toNat / 16) :: hexDigit c.toNat :: rest) =
      .ok (c, rest) := by
  have hunit := readUnit_of_lt (Nat.lt_trans h (by decide)) rest
  rw [Char.ofNat_toNat] at hunit
  rw [readEscape, readHex_of_lt (by omega)]
  exact hunit

/-! ### Strings -/

/-- **Reading undoes the escape of a character.** -/
theorem readStringFrom_escape (c : Char) :
    readStringFrom (fuel + 1) got (escape c ++ rest) = readStringFrom fuel (c :: got) rest := by
  by_cases hquote : c = '"'
  · subst hquote; rfl
  by_cases hslash : c = '\\'
  · subst hslash; rfl
  by_cases hcontrol : c.toNat < 0x20
  · unfold escape
    rw [if_neg hquote, if_neg hslash]
    -- five control characters have an escape of two characters, the others are given by number
    split
    next h => subst h; rfl
    split
    next h => subst h; rfl
    split
    next h => subst h; rfl
    split
    next h => subst h; rfl
    split
    next h => subst h; rfl
    show (readEscape ('u' :: '0' :: '0' :: hexDigit (c.toNat / 16) :: hexDigit c.toNat :: rest)
      >>= fun p => readStringFrom fuel (p.1 :: got) p.2) = readStringFrom fuel (c :: got) rest
    rw [readEscape_of_lt hcontrol]
    rfl
  · have hescape : escape c = [c] := by
      have hne : ∀ d : Char, d.toNat < 0x20 → c ≠ d := by
        rintro d hd rfl
        exact hcontrol hd
      simp [escape, hquote, hslash, hcontrol, hne]
    rw [hescape, List.singleton_append, readStringFrom, if_neg hquote, if_neg hslash,
      if_neg hcontrol]

theorem escape_ne_nil (c : Char) : escape c ≠ [] := by
  unfold escape
  repeat' split
  all_goals exact List.cons_ne_nil _ _

theorem length_le_escape (cs : List Char) : cs.length ≤ (cs.flatMap escape).length := by
  induction cs with
  | nil => exact Nat.zero_le _
  | cons c cs ih =>
      have := List.length_pos_of_ne_nil (escape_ne_nil c)
      rw [List.flatMap_cons, List.length_append, List.length_cons]
      omega

/-- Escaped characters are read up to the quote behind them. -/
theorem readStringFrom_quote (cs : List Char) (h : cs.length < fuel) :
    readStringFrom fuel got (cs.flatMap escape ++ '"' :: rest) = .ok (got.reverse ++ cs, rest) := by
  induction cs generalizing got fuel with
  | nil =>
      obtain ⟨fuel, rfl⟩ := Nat.exists_eq_succ_of_ne_zero (Nat.ne_of_gt h)
      simp [readStringFrom]
  | cons c cs ih =>
      obtain ⟨fuel, rfl⟩ := Nat.exists_eq_succ_of_ne_zero (Nat.ne_of_gt (Nat.zero_lt_of_lt h))
      rw [List.flatMap_cons, List.append_assoc, readStringFrom_escape,
        ih (Nat.lt_of_succ_lt_succ h)]
      simp

/-- **A string that was written is read.** -/
theorem readString_quote (s : String) (rest : List Char) :
    readString (s.toList.flatMap escape ++ '"' :: rest) = .ok (s, rest) := by
  have hfuel : s.toList.length < (s.toList.flatMap escape ++ '"' :: rest).length + 1 := by
    have := length_le_escape s.toList
    rw [List.length_append]
    omega
  rw [readString, readStringFrom_quote _ hfuel]
  simp [bind, Except.bind, pure, Except.pure]

/-- **Strings have different texts**, whatever follows them. -/
theorem quote_append_inj {s s' : String} {r r' : List Char} (h : quote s ++ r = quote s' ++ r') :
    s = s' ∧ r = r' := by
  have htail : s.toList.flatMap escape ++ '"' :: r = s'.toList.flatMap escape ++ '"' :: r' := by
    simpa [quote] using h
  have hread := readString_quote s r
  rw [htail, readString_quote s' r'] at hread
  obtain ⟨hstring, hrest⟩ := Prod.mk.inj (Except.ok.inj hread)
  exact ⟨hstring.symm, hrest.symm⟩

end AgentSwarm.Json
