/-
**Writing a number with its shortest digits.**

A notation fixes which numbers are written positionally and how the exponent of the others looks.
The digits are always the fewest that read back.

Main definitions:

* `AgentSwarm.Decimal.Notation` — where positional writing ends, and the sign of the exponent;
* `AgentSwarm.Decimal.Notation.chars` — the text of digits in a notation;
* `AgentSwarm.Decimal.Notation.ofFloat`, `AgentSwarm.Decimal.Notation.ofSingle` — the text of a
  finite double, and of a finite number of single precision;
* `AgentSwarm.Decimal.singleOfInt`, `AgentSwarm.Decimal.singleOfDouble` — rounding to single
  precision.
-/

import AgentSwarm.Decimal.Shortest

set_option relaxedAutoImplicit false
set_option autoImplicit false

namespace AgentSwarm.Decimal

/-- The decimal digits of a natural number. -/
def natChars (n : Nat) : List Char := Nat.toDigits 10 n

/-- The decimal text of an integer. -/
def intChars : Int → List Char
  | .ofNat n => natChars n
  | .negSucc n => '-' :: natChars (n + 1)

/-- How numbers are written. -/
structure Notation where
  /-- The least exponent of the first digit that is written positionally. -/
  plainFrom : Int
  /-- The greatest exponent of the first digit that is written positionally. -/
  plainTo : Int
  /-- Whether an exponent that is not negative carries a plus sign. -/
  plusSign : Bool
deriving DecidableEq, Repr

/-- Numbers in JSON texts: positional from 0.00001 to below 10^16, else `1e-6` and `1e+16`. -/
def Notation.json : Notation := ⟨-5, 15, true⟩

/-- Numbers of single precision in JSON texts: positional from 0.000001 to below 10^13. -/
def Notation.jsonSingle : Notation := ⟨-6, 12, true⟩

/-- Numbers in YAML texts: as in JSON, without a plus sign in the exponent. -/
def Notation.yaml : Notation := ⟨-5, 15, false⟩

/-- Positional at any size. -/
def Notation.positional : Notation := ⟨-400, 400, false⟩

/-- Positional writing of digits whose first stands at `10 ^ lead`, with at least one decimal. -/
def plainChars (ds : List Char) (lead : Int) : List Char :=
  if lead < 0 then '0' :: '.' :: List.replicate (-lead - 1).toNat '0' ++ ds
  else
    let whole := lead.toNat + 1
    if ds.length ≤ whole then ds ++ List.replicate (whole - ds.length) '0' ++ ['.', '0']
    else ds.take whole ++ '.' :: ds.drop whole

/-- Scientific writing of digits whose first stands at `10 ^ lead`. -/
def scientificChars (plusSign : Bool) (ds : List Char) (lead : Int) : List Char :=
  let point := if ds.length ≤ 1 then [] else '.' :: ds.drop 1
  let sign := if 0 ≤ lead && plusSign then ['+'] else []
  ds.take 1 ++ point ++ 'e' :: sign ++ intChars lead

/-- The text of digits in a notation. -/
def Notation.chars (form : Notation) (d : Digits) : List Char :=
  if d.digits = 0 then ['0', '.', '0']
  else
    let ds := natChars d.digits
    let lead := d.exponent + ds.length - 1
    if form.plainFrom ≤ lead && lead ≤ form.plainTo then plainChars ds lead
    else scientificChars form.plusSign ds lead

/-- The text of a finite double. -/
def Notation.ofFloat (form : Notation) (x : Float) : List Char :=
  let text := form.chars (Binary.ofFloat x).shortest
  if isNegative x then '-' :: text else text

/-- The double nearest to a decimal. -/
def Digits.toFloat (d : Digits) : Float :=
  if 0 ≤ d.exponent then Float.ofScientific d.digits false d.exponent.toNat
  else Float.ofScientific d.digits true (-d.exponent).toNat

/-! ### Single precision -/

/-- The nearest multiple of `2 ^ unit` to `m * 2 ^ q`, halves to the even one, for `q < unit`. -/
def roundTo (m : Nat) (q unit : Int) : Nat :=
  let drop := (unit - q).toNat
  let kept := m / Nat.pow 2 drop
  let left := m % Nat.pow 2 drop
  let half := Nat.pow 2 (drop - 1)
  if left > half ∨ (left = half ∧ kept % 2 = 1) then kept + 1 else kept

/-- The bits of the single-precision number nearest to `m * 2 ^ e`, without the sign. -/
def singleMagnitude (m : Nat) (e : Int) : Nat :=
  if m = 0 then 0
  else
    let lead : Int := e + Nat.log2 m
    let unit : Int := max (-149) (lead - 23)
    let k := if e < unit then roundTo m e unit else m * Nat.pow 2 (e - unit).toNat
    let magnitude : Nat :=
      if k < Nat.pow 2 23 then k else ((unit + 149).toNat) * Nat.pow 2 23 + k
    min magnitude 0x7F800000

/-- The single-precision number with a sign and a magnitude. -/
def singleOf (negative : Bool) (magnitude : Nat) : Float32 :=
  .ofBits ((if negative then Nat.pow 2 31 else 0) + magnitude).toUInt32

/-- The single-precision number nearest to an integer; it is rounded once. -/
def singleOfInt (n : Int) : Float32 := singleOf (n < 0) (singleMagnitude n.natAbs 0)

/-- The single-precision number nearest to a double. -/
def singleOfDouble (x : Float) : Float32 :=
  if x.isNaN then .ofBits 0x7FC00000
  else if !x.isFinite then singleOf (isNegative x) 0x7F800000
  else
    let b := Binary.ofFloat x
    singleOf (isNegative x) (singleMagnitude b.mantissa b.exponent)

/-- Whether a single-precision number carries the minus sign, also before zero. -/
def isNegativeSingle (x : Float32) : Bool := x.toBits.toNat / Nat.pow 2 31 == 1

/-- The text of a finite single-precision number. -/
def Notation.ofSingle (form : Notation) (x : Float32) : List Char :=
  let text := form.chars (Binary.ofFloat32 x).shortest
  if isNegativeSingle x then '-' :: text else text

/-- A single-precision number in a JSON text; one that is not finite is the empty value. -/
def singleChars (x : Float32) : List Char :=
  if x.isFinite then Notation.jsonSingle.ofSingle x else ['n', 'u', 'l', 'l']

/-- The double with the shortest decimal of a single-precision number; it is what others read in its
text. -/
def shownSingle (x : Float32) : Float :=
  if x.isFinite then
    let y := (Binary.ofFloat32 x).shortest.toFloat
    if isNegativeSingle x then -y else y
  else if x.isNaN then 0.0 / 0.0
  else if isNegativeSingle x then -1.0 / 0.0
  else 1.0 / 0.0

end AgentSwarm.Decimal
