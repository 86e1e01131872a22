/-
**Lengths of time and how they are written.**

A duration is a whole number of nanoseconds.  It is read from a sum of numbers with units, such as
`1h 30m` or `1.5s`; blanks may stand around every part.  It is written with the units year, month,
day, hour, minute, second and the three smaller ones, largest first, leaving out zero parts.  A
month is 30.44 days and a year 365.25 days.

Main definitions:

* `AgentSwarm.Duration` — a number of nanoseconds;
* `AgentSwarm.Duration.parse` — reading a sum of numbers with units;
* `AgentSwarm.Duration.text` — writing the sum of its largest units;
* `AgentSwarm.Duration.decimalText` — writing one decimal number with one unit.
-/

import AgentSwarm.Text.Blank
import AgentSwarm.Decimal.Notation

set_option relaxedAutoImplicit false
set_option autoImplicit false

namespace AgentSwarm

/-- A length of time in nanoseconds. -/
structure Duration where
  nanos : Nat
deriving DecidableEq, Repr, Inhabited

namespace Duration

/-- A duration of whole seconds. -/
def ofSeconds (n : Nat) : Duration := ⟨n * 1000000000⟩

/-- A duration of whole milliseconds. -/
def ofMillis (n : Nat) : Duration := ⟨n * 1000000⟩

/-- No time at all. -/
def zero : Duration := ⟨0⟩

/-- The longest duration: as many seconds as a 64-bit word holds, and almost one more. -/
def longest : Duration := ⟨(UInt64.size - 1) * 1000000000 + 999999999⟩

/-- A duration taken several times; what is too long becomes the longest. -/
def times (d : Duration) (n : Nat) : Duration := ⟨min (d.nanos * n) longest.nanos⟩

/-- Whether it is no time at all. -/
def isZero (d : Duration) : Bool := d.nanos == 0

/-- The least number of whole milliseconds that is not shorter. -/
def ceilMillis (d : Duration) : Nat := (d.nanos + 999999) / 1000000

@[simp] theorem ceilMillis_ofMillis (n : Nat) : (ofMillis n).ceilMillis = n := by
  simp only [ceilMillis, ofMillis]
  omega

/-! ### Units -/

/-- The units a number can carry. -/
inductive TimeUnit where
  | nanosecond | microsecond | millisecond | second | minute | hour | day | week | month | year
deriving DecidableEq, Repr

/-- The unit of a word. -/
def TimeUnit.ofWord? (word : String) : Option TimeUnit :=
  if word ∈ ["nanos", "nsec", "ns"] then some .nanosecond
  else if word ∈ ["usec", "us", "µs"] then some .microsecond
  else if word ∈ ["millis", "msec", "ms"] then some .millisecond
  else if word ∈ ["seconds", "second", "secs", "sec", "s"] then some .second
  else if word ∈ ["minutes", "minute", "mins", "min", "m"] then some .minute
  else if word ∈ ["hours", "hour", "hrs", "hr", "h"] then some .hour
  else if word ∈ ["days", "day", "d"] then some .day
  else if word ∈ ["weeks", "week", "wks", "wk", "w"] then some .week
  else if word ∈ ["months", "month", "M"] then some .month
  else if word ∈ ["years", "year", "yrs", "yr", "y"] then some .year
  else none

/-- How many seconds, or else how many nanoseconds, a unit has. -/
def TimeUnit.size : TimeUnit → Nat × Nat
  | .nanosecond => (0, 1)
  | .microsecond => (0, 1000)
  | .millisecond => (0, 1000000)
  | .second => (1, 0)
  | .minute => (60, 0)
  | .hour => (3600, 0)
  | .day => (86400, 0)
  | .week => (604800, 0)
  | .month => (2630016, 0)
  | .year => (31557600, 0)

/-- How many seconds, or else how many nanoseconds, a decimal fraction of a unit is counted in;
nanoseconds have no fractions. -/
def TimeUnit.fractionSize : TimeUnit → Option (Nat × Nat)
  | .nanosecond => none
  | .second => some (0, 1000000000)
  | .minute => some (0, 60000000000)
  | u => some u.size

/-! ### Reading -/

/-- A number that fits an unsigned 64-bit word. -/
def inWord (n : Nat) : Option Nat := if n < UInt64.size then some n else none

/-- A decimal fraction. -/
structure Fraction where
  numerator : Nat
  denominator : Nat
deriving DecidableEq, Repr

/-- Whether a character can stand in a unit. -/
def isUnitChar (c : Char) : Bool := c.isAlpha || c == 'µ'

/-- Seconds and nanoseconds, of which the latter are added to a total that is below a second. -/
def addPart (total : Nat × Nat) (part : Nat × Nat) : Option (Nat × Nat) := do
  let nanos ← inWord (total.2 + part.2)
  let seconds ← inWord (part.1 + nanos / 1000000000)
  let seconds ← inWord (total.1 + seconds)
  return (seconds, nanos % 1000000000)

/-- The total with `n`, and a fraction, of a unit added. -/
def addUnits (total : Nat × Nat) (n : Nat) (fraction : Option Fraction) (word : List Char) :
    Option (Nat × Nat) := do
  let u ← TimeUnit.ofWord? (String.ofList word)
  let total ← addPart total (← inWord (n * u.size.1), ← inWord (n * u.size.2))
  match fraction with
  | none => return total
  | some f =>
    let size ← u.fractionSize
    let seconds ← inWord (f.numerator * size.1)
    let nanos ← inWord (f.numerator * size.2)
    addPart total (seconds / f.denominator, nanos / f.denominator)

/-- The digits of a number up to its point or its unit; blanks between digits are passed over. -/
def readNumber : Nat → List Char → Option (Nat × List Char)
  | n, [] => some (n, [])
  | n, c :: rest =>
    if c.isDigit then do readNumber (← inWord (n * 10 + (c.toNat - 48))) rest
    else if Text.isBlank c then readNumber n rest
    else if isUnitChar c || c == '.' then some (n, c :: rest)
    else none

/-- The digits after a point up to the unit; blanks between digits are passed over. -/
def readFraction : Fraction → List Char → Option (Fraction × List Char)
  | f, [] => if f.denominator = 1 then none else some (f, [])
  | f, c :: rest =>
    if c.isDigit then do
      readFraction ⟨← inWord (f.numerator * 10 + (c.toNat - 48)), ← inWord (f.denominator * 10)⟩ rest
    else if Text.isBlank c then readFraction f rest
    else if isUnitChar c then if f.denominator = 1 then none else some (f, c :: rest)
    else none

/-- The letters of a unit, which a digit, a blank or the end of the text closes. -/
def readUnit : List Char → Option (List Char × List Char)
  | [] => some ([], [])
  | c :: rest =>
    if c.isDigit || Text.isBlank c then some ([], c :: rest)
    else if isUnitChar c then (readUnit rest).map fun (word, rest) => (c :: word, rest)
    else none

/-- The sum of the parts from a text that stands at a digit or at a blank. -/
def readParts : Nat → Nat × Nat → List Char → Option (Nat × Nat)
  | 0, _, _ => none
  | fuel + 1, total, cs =>
    match Text.trimStart cs with
    | [] => some total
    | c :: rest =>
      if !c.isDigit then none
      else do
        let (n, rest) ← readNumber (c.toNat - 48) rest
        let (fraction, rest) ←
          match rest with
          | '.' :: rest => do
            let (f, rest) ← readFraction ⟨0, 1⟩ rest
            pure (some f, rest)
          | rest => pure (none, rest)
        let (word, rest) ← readUnit rest
        let total ← addUnits total n fraction word
        readParts fuel total rest

/-- The duration a text denotes; the text `0` needs no unit. -/
def parse (text : String) : Option Duration :=
  if text = "0" then some zero
  else if Text.isAllBlank text then none
  else
    (readParts (text.toList.length + 1) (0, 0) text.toList).map
      fun (seconds, nanos) => ⟨seconds * 1000000000 + nanos⟩

/-! ### Writing -/

/-- One part, or nothing for zero. -/
def partText (n : Nat) (word : String) (plural : Bool) : List (List Char) :=
  if n = 0 then []
  else [Decimal.natChars n ++ word.toList ++ (if plural && 1 < n then ['s'] else [])]

/-- The parts that are not zero, largest unit first. -/
def parts (d : Duration) : List (List Char) :=
  let seconds := d.nanos / 1000000000
  let nanos := d.nanos % 1000000000
  let inYear := seconds % 31557600
  let inMonth := inYear % 2630016
  let inDay := inMonth % 86400
  partText (seconds / 31557600) "year" true ++
    partText (inYear / 2630016) "month" true ++
    partText (inMonth / 86400) "day" true ++
    partText (inDay / 3600) "h" false ++
    partText (inDay % 3600 / 60) "m" false ++
    partText (inDay % 60) "s" false ++
    partText (nanos / 1000000) "ms" false ++
    partText (nanos / 1000 % 1000) "us" false ++
    partText (nanos % 1000) "ns" false

/-- A duration as the sum of its parts. -/
def text (d : Duration) : String :=
  if d.isZero then "0s" else String.ofList (Text.joinWith [' '] d.parts)

/-- `whole + part / 10 ^ places` without zeros at the end. -/
def decimalChars (whole part places : Nat) : List Char :=
  let ds := Decimal.natChars part
  let padded := List.replicate (places - ds.length) '0' ++ ds
  let kept := (padded.reverse.dropWhile (· == '0')).reverse
  Decimal.natChars whole ++ (if kept.isEmpty then [] else '.' :: kept)

/-- A duration as one decimal number of the largest unit that it fills, at most seconds. -/
def decimalText (d : Duration) : String :=
  let chars :=
    if 1000000000 ≤ d.nanos then
      decimalChars (d.nanos / 1000000000) (d.nanos % 1000000000) 9 ++ ['s']
    else if 1000000 ≤ d.nanos then
      decimalChars (d.nanos / 1000000) (d.nanos % 1000000) 6 ++ ['m', 's']
    else if 1000 ≤ d.nanos then decimalChars (d.nanos / 1000) (d.nanos % 1000) 3 ++ ['µ', 's']
    else decimalChars d.nanos 0 0 ++ ['n', 's']
  String.ofList chars

end Duration

end AgentSwarm
