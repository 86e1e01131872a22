/-
**Points in time and their RFC 3339 text.**

A timestamp counts seconds from the start of 1970 in UTC and nanoseconds inside the second; during a
leap second the nanoseconds go on past a whole second.  Reading accepts any offset, a space or a
small `t` between date and time, and blanks around the separators; writing uses UTC, `Z`, and 0, 3, 6
or 9 digits after the point.

Main definitions:

* `AgentSwarm.Timestamp` — a point in time;
* `AgentSwarm.Timestamp.parse` — reading, with the cause of a failure;
* `AgentSwarm.Timestamp.text` — writing.
-/

import AgentSwarm.Text.Blank
import AgentSwarm.Decimal.Notation

set_option relaxedAutoImplicit false
set_option autoImplicit false

namespace AgentSwarm

/-- A point in time. -/
structure Timestamp where
  /-- Seconds from the start of 1970 in UTC. -/
  seconds : Int
  /-- Nanoseconds inside the second, a whole second or more during a leap second. -/
  nanos : Nat
deriving DecidableEq, Repr, Inhabited

namespace Timestamp

/-- Why a text is no timestamp. -/
inductive Fault where
  | tooShort | outOfRange | invalid | tooLong | impossible
deriving DecidableEq, Repr

/-- The wording of a fault. -/
def Fault.message : Fault → String
  | .tooShort => "premature end of input"
  | .outOfRange => "input is out of range"
  | .invalid => "input contains invalid characters"
  | .tooLong => "trailing input"
  | .impossible => "no possible date and time matching input"

/-! ### The calendar -/

/-- Whether a year has a 29th of February. -/
def isLeapYear (y : Int) : Bool := y % 4 == 0 && (y % 100 != 0 || y % 400 == 0)

/-- The days of a month. -/
def daysInMonth (y : Int) (m : Nat) : Nat :=
  if m = 2 then (if isLeapYear y then 29 else 28)
  else if m ∈ [4, 6, 9, 11] then 30 else 31

/-- The days from the start of 1970 to a date.  Years are counted from March, so that the leap day
is the last of its year. -/
def daysOfDate (y : Int) (m d : Nat) : Int :=
  let y := if m ≤ 2 then y - 1 else y
  let era := y / 400
  let yearOfEra := y % 400
  let month : Int := if m ≤ 2 then m + 9 else m - 3
  let dayOfYear := (153 * month + 2) / 5 + d - 1
  era * 146097 + (yearOfEra * 365 + yearOfEra / 4 - yearOfEra / 100 + dayOfYear) - 719468

/-- Year, month and day of a number of days from the start of 1970. -/
def dateOfDays (days : Int) : Int × Nat × Nat :=
  let z := days + 719468
  let era := z / 146097
  let dayOfEra := z % 146097
  let yearOfEra := (dayOfEra - dayOfEra / 1460 + dayOfEra / 36524 - dayOfEra / 146096) / 365
  let dayOfYear := dayOfEra - (365 * yearOfEra + yearOfEra / 4 - yearOfEra / 100)
  let mp := (5 * dayOfYear + 2) / 153
  let day := dayOfYear - (153 * mp + 2) / 5 + 1
  let month := if mp < 10 then mp + 3 else mp - 9
  let year := yearOfEra + era * 400 + (if month ≤ 2 then 1 else 0)
  (year, month.toNat, day.toNat)

/-- The least and the greatest year that can be represented. -/
def yearRange : Int × Int := (-262143, 262142)

/-! ### Reading -/

/-- A text without the blanks at its start. -/
def skipBlank (cs : List Char) : List Char := Text.trimStart cs

/-- The number of at least one and at most `width` digits. -/
def readDigits (width : Nat) (cs : List Char) : Except Fault (Nat × List Char) :=
  match cs with
  | [] => .error .tooShort
  | c :: _ =>
    if !c.isDigit then .error .invalid
    else
      let ds := (cs.take width).takeWhile Char.isDigit
      let n := ds.foldl (fun n c => n * 10 + (c.toNat - 48)) 0
      if Nat.pow 2 63 ≤ n then .error .outOfRange else .ok (n, cs.drop ds.length)

/-- A number of at most two digits in a range, after blanks. -/
def readField (least greatest : Nat) (cs : List Char) : Except Fault (Nat × List Char) := do
  let (n, rest) ← readDigits 2 (skipBlank cs)
  if least ≤ n ∧ n ≤ greatest then return (n, rest) else throw .outOfRange

/-- The year: four digits, or any number of digits after a sign. -/
def readYear (cs : List Char) : Except Fault (Int × List Char) := do
  let fit (y : Int) (rest : List Char) : Except Fault (Int × List Char) :=
    if -Int.pow 2 31 ≤ y ∧ y < Int.pow 2 31 then .ok (y, rest) else .error .outOfRange
  match skipBlank cs with
  | '-' :: rest => do
    let (n, rest') ← readDigits rest.length rest
    fit (-(n : Int)) rest'
  | '+' :: rest => do
    let (n, rest') ← readDigits rest.length rest
    fit n rest'
  | rest => do
    let (n, rest') ← readDigits 4 rest
    fit n rest'

/-- The text after a separator, which blanks may precede. -/
def readMark (mark : Char) (cs : List Char) : Except Fault (List Char) :=
  match skipBlank cs with
  | [] => .error .tooShort
  | c :: rest => if c = mark then .ok rest else .error .invalid

/-- The nanoseconds after a point, if there is one; digits beyond the ninth are dropped. -/
def readNanos (cs : List Char) : Except Fault (Nat × List Char) :=
  match cs with
  | '.' :: rest => do
    let (n, rest') ← readDigits 9 rest
    let used := rest.length - rest'.length
    return (n * Nat.pow 10 (9 - used), rest'.dropWhile Char.isDigit)
  | _ => .ok (0, cs)

/-- Two digits. -/
def twoDigits (cs : List Char) : Option (Option Nat × List Char) :=
  match cs with
  | a :: b :: rest =>
    if a.isDigit && b.isDigit then some (some ((a.toNat - 48) * 10 + (b.toNat - 48)), rest)
    else some (none, rest)
  | _ => none

/-- The offset from UTC in seconds. -/
def readOffset (cs : List Char) : Except Fault (Int × List Char) :=
  match cs with
  | [] => .error .tooShort
  | c :: rest =>
    if c = 'Z' ∨ c = 'z' then .ok (0, rest)
    else if c ≠ '+' ∧ c ≠ '-' ∧ c ≠ '−' then .error .invalid
    else
      match twoDigits rest with
      | none => .error .tooShort
      | some (none, _) => .error .invalid
      | some (some hours, rest) =>
        match twoDigits (rest.dropWhile fun d => d == ':' || Text.isBlank d) with
        | none => .error .tooShort
        | some (none, _) => .error .invalid
        | some (some minutes, rest) =>
          if 59 < minutes then .error .outOfRange
          else
            let seconds : Int := hours * 3600 + minutes * 60
            .ok (if c = '+' then seconds else -seconds, rest)

/-- The offset, which may be given as the letters UTC. -/
def readZone (cs : List Char) : Except Fault (Int × List Char) :=
  match cs with
  | a :: b :: c :: rest =>
    if [a, b, c].map Char.toLower = ['u', 't', 'c'] then .ok (0, rest) else readOffset cs
  | _ => readOffset cs

/-- The text after the letter or the space between date and time. -/
def readDivider : List Char → Except Fault (List Char)
  | [] => .error .tooShort
  | c :: rest => if c = 'T' ∨ c = 't' ∨ c = ' ' then .ok rest else .error .invalid

/-- A timestamp from its text. -/
def parse (text : String) : Except Fault Timestamp := do
  let (year, cs) ← readYear text.toList
  let cs ← readMark '-' cs
  let (month, cs) ← readField 1 12 cs
  let cs ← readMark '-' cs
  let (day, cs) ← readField 1 31 cs
  let cs ← readDivider cs
  let (hour, cs) ← readField 0 23 cs
  let cs ← readMark ':' cs
  let (minute, cs) ← readField 0 59 cs
  let cs ← readMark ':' cs
  let (second, cs) ← readField 0 60 cs
  let (nanos, cs) ← readNanos cs
  let (offset, cs) ← readZone (skipBlank cs)
  if !(skipBlank cs).isEmpty then throw .tooLong
  if year < yearRange.1 ∨ yearRange.2 < year ∨ daysInMonth year month < day then
    throw .outOfRange
  if offset ≤ -86400 ∨ 86400 ≤ offset then throw .outOfRange
  let seconds : Int :=
    daysOfDate year month day * 86400 + hour * 3600 + minute * 60 + (min second 59 : Nat)
  let shown := (dateOfDays ((seconds - offset) / 86400)).1
  if shown < yearRange.1 ∨ yearRange.2 < shown then throw .impossible
  return ⟨seconds - offset, if second = 60 then nanos + 1000000000 else nanos⟩

/-! ### Writing -/

/-- A number with zeros in front up to a width. -/
def padded (width n : Nat) : List Char :=
  let ds := Decimal.natChars n
  List.replicate (width - ds.length) '0' ++ ds

/-- A year: four digits, or a sign and at least four digits outside 0 to 9999. -/
def yearChars (y : Int) : List Char :=
  if 0 ≤ y ∧ y ≤ 9999 then padded 4 y.toNat
  else (if y < 0 then '-' else '+') :: padded 4 y.natAbs

/-- The digits after the point: none, three, six or nine. -/
def nanosChars (n : Nat) : List Char :=
  if n = 0 then []
  else if n % 1000000 = 0 then '.' :: padded 3 (n / 1000000)
  else if n % 1000 = 0 then '.' :: padded 6 (n / 1000)
  else '.' :: padded 9 n

/-- The text of a timestamp. -/
def text (t : Timestamp) : String :=
  let (y, m, d) := dateOfDays (t.seconds / 86400)
  let inDay := (t.seconds % 86400).toNat
  let leap := 1000000000 ≤ t.nanos
  let second := inDay % 60 + (if leap then 1 else 0)
  let nanos := if leap then t.nanos - 1000000000 else t.nanos
  String.ofList (yearChars y ++ '-' :: padded 2 m ++ '-' :: padded 2 d ++ 'T' ::
    padded 2 (inDay / 3600) ++ ':' :: padded 2 (inDay % 3600 / 60) ++ ':' :: padded 2 second ++
    nanosChars nanos ++ ['Z'])

end Timestamp

end AgentSwarm
