/-
**The fewest decimal digits that read back.**

A binary floating-point number is a mantissa times a power of two.  Every real number closer to it
than to its neighbours rounds to it, and so does the midpoint itself when the mantissa is even.
Its shortest decimal is the decimal of fewest digits in that interval, and of those the nearest.

The search goes over the grids of 1, 2, 3, … digits.  On each grid only the two neighbours of the
number have to be tried: a grid with any point in the interval has one of these two in it.

Main definitions:

* `AgentSwarm.Decimal.Binary` — a positive number, mantissa times a power of two;
* `AgentSwarm.Decimal.Binary.ofFloat`, `AgentSwarm.Decimal.Binary.ofFloat32` — decoding the bits;
* `AgentSwarm.Decimal.Digits` — digits times a power of ten;
* `AgentSwarm.Decimal.Binary.shortest` — the fewest digits that read back.
-/

set_option relaxedAutoImplicit false
set_option autoImplicit false

namespace AgentSwarm.Decimal

/-! ### Binary numbers -/

/-- A positive number `mantissa * 2 ^ exponent` of a floating-point format. -/
structure Binary where
  mantissa : Nat
  exponent : Int
  /-- Whether the neighbour below is half as far away as the neighbour above. -/
  narrowBelow : Bool
deriving DecidableEq, Repr

/-- The number with biased exponent `biased` and stored fraction `fraction`, in the format with
`width` stored fraction bits and least exponent `least`. -/
def Binary.ofFields (width : Nat) (least : Int) (biased fraction : Nat) : Binary :=
  if biased = 0 then ⟨fraction, least, false⟩
  else ⟨Nat.pow 2 width + fraction, least + biased - 1, fraction == 0 && biased != 1⟩

/-- The magnitude of a finite double. -/
def Binary.ofFloat (x : Float) : Binary :=
  let bits := x.toBits.toNat
  ofFields 52 (-1074) (bits / Nat.pow 2 52 % Nat.pow 2 11) (bits % Nat.pow 2 52)

/-- The magnitude of a finite single. -/
def Binary.ofFloat32 (x : Float32) : Binary :=
  let bits := x.toBits.toNat
  ofFields 23 (-149) (bits / Nat.pow 2 23 % Nat.pow 2 8) (bits % Nat.pow 2 23)

/-- Whether a double carries the minus sign, also before zero. -/
def isNegative (x : Float) : Bool := x.toBits.toNat / Nat.pow 2 63 == 1

/-! ### Decimal digits -/

/-- The number `digits * 10 ^ exponent`. -/
structure Digits where
  digits : Nat
  exponent : Int
deriving DecidableEq, Repr

/-- The digits without zeros at the end, taking at most `fuel` of them off. -/
def Digits.strip : Nat → Digits → Digits
  | 0, d => d
  | fuel + 1, d =>
    if d.digits ≠ 0 ∧ d.digits % 10 = 0 then strip fuel ⟨d.digits / 10, d.exponent + 1⟩ else d

/-! ### The shortest digits -/

/-- The product `n * base ^ e` as a fraction. -/
def scaled (base n : Nat) (e : Int) : Nat × Nat :=
  if 0 ≤ e then (n * base.pow e.toNat, 1) else (n, base.pow (-e).toNat)

/-- Whether `a * 10 ^ e` is below `n * 2 ^ q`. -/
def decimalBelow (a : Nat) (e : Int) (n : Nat) (q : Int) : Bool :=
  let (ta, da) := scaled 10 a e
  let (tn, dn) := scaled 2 n q
  ta * dn < tn * da

/-- Whether `a * 10 ^ e` is `n * 2 ^ q`. -/
def decimalEqual (a : Nat) (e : Int) (n : Nat) (q : Int) : Bool :=
  let (ta, da) := scaled 10 a e
  let (tn, dn) := scaled 2 n q
  ta * dn == tn * da

/-- Four times the mantissa and the ends of the interval that rounds to the number, in quarters of
its unit in the last place. -/
def Binary.interval (b : Binary) : Nat × Nat × Nat :=
  let m := 4 * b.mantissa
  (m - (if b.narrowBelow then 1 else 2), m, m + 2)

/-- Whether `a * 10 ^ e` rounds to the number. -/
def Binary.covers (b : Binary) (a : Nat) (e : Int) : Bool :=
  let (lo, _, hi) := b.interval
  let q := b.exponent - 2
  let closed := b.mantissa % 2 == 0
  let aboveLo := !decimalBelow a e lo q && (closed || !decimalEqual a e lo q)
  let belowHi := decimalBelow a e hi q || (closed && decimalEqual a e hi q)
  aboveLo && belowHi

/-- The greatest grid point `a * 10 ^ e` that is not above the number. -/
def Binary.floorAt (b : Binary) (e : Int) : Nat :=
  let (tn, dn) := scaled 2 b.mantissa b.exponent
  let (tu, du) := scaled 10 1 e
  tn * du / (dn * tu)

/-- Whether the grid point `a + 1` is nearer to the number than `a`; a tie goes to the even one. -/
def Binary.upperNearer (b : Binary) (a : Nat) (e : Int) : Bool :=
  let m := 2 * b.mantissa
  decimalBelow (2 * a + 1) e m b.exponent ||
    (decimalEqual (2 * a + 1) e m b.exponent && a % 2 == 1)

/-- The exponent of the first decimal digit, searched upwards from `e`. -/
def Binary.leading (b : Binary) : Nat → Int → Int
  | 0, e => e
  | fuel + 1, e => if b.floorAt (e + 1) = 0 then e else leading b fuel (e + 1)

/-- A grid point that rounds to the number, of two the nearer. -/
def Binary.onGrid (b : Binary) (e : Int) : Option Digits :=
  let a := b.floorAt e
  match b.covers a e && a != 0, b.covers (a + 1) e with
  | true, true => some ⟨if b.upperNearer a e then a + 1 else a, e⟩
  | true, false => some ⟨a, e⟩
  | false, true => some ⟨a + 1, e⟩
  | false, false => none

/-- The first hit on the grids with more and more digits, the finest of them last. -/
def Binary.search (b : Binary) : Nat → Int → Digits
  | 0, e => ⟨b.floorAt e, e⟩
  | fuel + 1, e =>
    match b.onGrid e with
    | some d => d
    | none => search b fuel (e - 1)

/-- A lower bound for the exponent of the first decimal digit. -/
def Binary.leadingFloor (b : Binary) : Int :=
  let bits : Int := b.exponent + Nat.log2 b.mantissa
  if 0 ≤ bits then bits * 3 / 10 - 1 else bits * 31 / 100 - 2

/-- The fewest digits that read back as the number. -/
def Binary.shortest (b : Binary) : Digits :=
  if b.mantissa = 0 then ⟨0, 0⟩
  else
    let top := b.leading 40 b.leadingFloor
    (b.search 17 top).strip 20

end AgentSwarm.Decimal
