/-
**Reading JSON numbers.**

An integer literal that fits 64 bits, signed or not, is an integer; any other number is a double.
The double is taken from the leading digits that fit an unsigned 64-bit word and one scaling by a
power of ten: the digits beyond are dropped, and scaling rounds once more.

Main definitions:

* `AgentSwarm.Json.Literal` — the parts of a number literal;
* `AgentSwarm.Json.readLiteral` — taking a literal off a text;
* `AgentSwarm.Json.Literal.value` — the number it denotes.
-/

import AgentSwarm.Json.Basic
import AgentSwarm.Json.Fault

set_option relaxedAutoImplicit false
set_option autoImplicit false

namespace AgentSwarm.Json

/-- The parts of a number literal. -/
structure Literal where
  negative : Bool
  /-- The digits before the point. -/
  whole : List Char
  /-- The digits after the point, if there is a point. -/
  fraction : Option (List Char)
  /-- Whether the exponent is negative, and its digits. -/
  exponent : Option (Bool × List Char)
deriving DecidableEq, Repr

/-- The digits at the start of a text, and the rest. -/
def takeDigits (cs : List Char) : List Char × List Char :=
  (cs.takeWhile Char.isDigit, cs.dropWhile Char.isDigit)

/-- The value of a decimal digit. -/
def digitValue (c : Char) : Nat := c.toNat - 48

/-! ### The parts of a literal -/

/-- The digits before the point: one zero alone, or digits that do not start with zero. -/
def readWhole : List Char → Except Fault (List Char × List Char)
  | [] => .error (.before .eofInValue [])
  | '0' :: rest =>
    match rest with
    | c :: _ => if c.isDigit then .error (.at .invalidNumber rest) else .ok (['0'], rest)
    | [] => .ok (['0'], rest)
  | c :: rest =>
    if c.isDigit then .ok (takeDigits (c :: rest)) else .error (.at .invalidNumber (c :: rest))

/-- The digits after the point, if there is one. -/
def readFraction : List Char → Except Fault (Option (List Char) × List Char)
  | '.' :: rest =>
    let (digits, rest') := takeDigits rest
    if digits.isEmpty then
      .error (if rest.isEmpty then .before .eofInValue rest else .at .invalidNumber rest)
    else .ok (some digits, rest')
  | rest => .ok (none, rest)

/-- The sign and the digits of the exponent, if there is one. -/
def readExponent : List Char → Except Fault (Option (Bool × List Char) × List Char)
  | [] => .ok (none, [])
  | e :: rest =>
    if e = 'e' ∨ e = 'E' then
      let (negative, digitsOn) :=
        match rest with
        | '+' :: r => (false, r)
        | '-' :: r => (true, r)
        | r => (false, r)
      let (digits, rest') := takeDigits digitsOn
      if digits.isEmpty then
        .error (if digitsOn.isEmpty then .before .eofInValue digitsOn
          else .at .invalidNumber digitsOn)
      else .ok (some (negative, digits), rest')
    else .ok (none, e :: rest)

/-- A number literal whose sign has been read. -/
def readLiteral (negative : Bool) (cs : List Char) : Except Fault (Literal × List Char) := do
  let (whole, rest) ← readWhole cs
  let (fraction, rest) ← readFraction rest
  let (exponent, rest) ← readExponent rest
  return (⟨negative, whole, fraction, exponent⟩, rest)

/-! ### The number of a literal -/

/-- The greatest unsigned 64-bit word. -/
def maxWord : Nat := UInt64.size - 1

/-- The leading digits that fit a word, and how many digits were left. -/
def leadingWord : Nat → List Char → Nat × List Char
  | w, [] => (w, [])
  | w, c :: rest =>
    if w * 10 + digitValue c ≤ maxWord then leadingWord (w * 10 + digitValue c) rest
    else (w, c :: rest)

/-- The value of exponent digits; the digits left unread when it outgrows 31 bits. -/
def exponentValue : Nat → List Char → Except (List Char) Nat
  | n, [] => .ok n
  | n, c :: rest =>
    if n * 10 + digitValue c < Nat.pow 2 31 then exponentValue (n * 10 + digitValue c) rest
    else .error rest

/-- A double scaled by a power of ten, in steps that have a table entry; none when it leaves the
range of doubles. -/
def scaleByTen : Nat → Float → Int → Option Float
  | 0, x, _ => some x
  | fuel + 1, x, e =>
    if e.natAbs ≤ 308 then
      let power := Float.ofScientific 1 false e.natAbs
      if 0 ≤ e then
        if (x * power).isInf then none else some (x * power)
      else some (x / power)
    else if x == 0.0 then some x
    else if 0 ≤ e then none
    else scaleByTen fuel (x / 1e308) (e + 308)

/-- The double of a word times a power of ten. -/
def scaledWord (word : Nat) (e : Int) : Option Float := scaleByTen 4 word.toUInt64.toFloat e

/-- The double of a literal; when it is out of range, the exponent digits that decided it. -/
def Literal.double (l : Literal) : Except (List Char) Float := do
  let (word, left) := leadingWord 0 l.whole
  let (word, used) :=
    match l.fraction with
    | none => (word, 0)
    | some digits =>
      let (w, unused) := leadingWord word digits
      (w, digits.length - unused.length)
  let e : Int := (left.length : Int) - used
  let inRange (x : Option Float) : Except (List Char) Float :=
    match x with
    | some x => .ok x
    | none => .error []
  let x ←
    match l.exponent with
    | none => inRange (scaledWord word e)
    | some (negative, digits) =>
      match exponentValue 0 digits with
      | .ok n => inRange (scaledWord word (if negative then e - n else e + n))
      | .error unread => if word ≠ 0 && !negative then .error unread else .ok 0.0
  return if l.negative then -x else x

/-- Whether a literal is written as an integer. -/
def Literal.isInteger (l : Literal) : Bool := l.fraction.isNone && l.exponent.isNone

/-- The number a literal denotes. -/
def Literal.value (l : Literal) : Except (List Char) Json :=
  let (word, left) := leadingWord 0 l.whole
  if l.isInteger && left.isEmpty then
    if !l.negative then .ok (.int word)
    else if word = 0 ∨ word > Nat.pow 2 63 then .ok (.real (-(word.toUInt64.toFloat)))
    else .ok (.int (-(word : Int)))
  else l.double.map .real

/-- A number whose sign has been read. -/
def readNumber (negative : Bool) (cs : List Char) : Except Fault (Json × List Char) := do
  let (literal, rest) ← readLiteral negative cs
  match literal.value with
  | .ok v => return (v, rest)
  | .error unread => throw (.before .numberOutOfRange (unread ++ rest))

end AgentSwarm.Json
