/-
**Digits.**

Main definitions:

* `AgentSwarm.Text.isHexDigit` — the hexadecimal digits;
* `AgentSwarm.Text.decimal?`, `AgentSwarm.Text.word64?` — the number of decimal digits.

Main results:

* `AgentSwarm.Text.decimal?_isSome_iff` — the texts of decimal digits are the numbers.
-/

set_option relaxedAutoImplicit false
set_option autoImplicit false

namespace AgentSwarm.Text

/-- Whether a character is a hexadecimal digit. -/
def isHexDigit (c : Char) : Bool := c.isDigit || ('a' ≤ c.toLower && c.toLower ≤ 'f')

/-- The number of decimal digits; there must be some. -/
def decimal? (cs : List Char) : Option Nat :=
  if cs.isEmpty || !cs.all Char.isDigit then none
  else some (cs.foldl (fun n c => n * 10 + (c.toNat - 48)) 0)

theorem decimal?_isSome_iff {cs : List Char} :
    (decimal? cs).isSome = true ↔ cs ≠ [] ∧ ∀ c ∈ cs, c.isDigit = true := by
  unfold decimal?
  by_cases he : cs = []
  · simp [he]
  · by_cases hd : ∀ c ∈ cs, c.isDigit = true
    · simpa [he, List.all_eq_true.2 hd] using hd
    · simp [he]

/-- The number of 64 bits in decimal digits, with a plus sign before them or without. -/
def word64? (s : String) : Option Nat :=
  let digits := match s.toList with
    | '+' :: rest => rest
    | cs => cs
  (decimal? digits).filter (· < UInt64.size)

end AgentSwarm.Text
