/-
**What plain scalars mean.**

A plain scalar is null, a truth value, an integer, a number or a text.  Integers may be hexadecimal,
octal or binary; digits that begin with a superfluous zero are a text.

Main definitions:

* `AgentSwarm.Yaml.isNullWord`, `AgentSwarm.Yaml.flagOf?`, `AgentSwarm.Yaml.naturalOf?`,
  `AgentSwarm.Yaml.integerOf?`, `AgentSwarm.Yaml.realOf?` — the single kinds;
* `AgentSwarm.Yaml.Meaning`, `AgentSwarm.Yaml.meaningOf` — what a plain scalar means.
-/

import AgentSwarm.Decimal.Notation
import AgentSwarm.Text.Blank

set_option relaxedAutoImplicit false
set_option autoImplicit false

namespace AgentSwarm.Yaml

/-! ### Words -/

/-- Whether a text is a word for null. -/
def isNullWord (s : String) : Bool := ["null", "Null", "NULL", "~"].contains s

/-- The truth value of a word. -/
def flagOf? (s : String) : Option Bool :=
  if ["true", "True", "TRUE"].contains s then some true
  else if ["false", "False", "FALSE"].contains s then some false
  else none

/-! ### Integers -/

/-- The value of a digit in a base of at most sixteen. -/
def digitIn? (base : Nat) (c : Char) : Option Nat :=
  let value :=
    if c.isDigit then some (c.toNat - 48)
    else if 'a' ≤ c && c ≤ 'f' then some (c.toNat - 87)
    else if 'A' ≤ c && c ≤ 'F' then some (c.toNat - 55)
    else none
  value.filter (· < base)

/-- The number of digits in a base; there must be some. -/
def numberIn? (base : Nat) (cs : List Char) : Option Nat :=
  if cs.isEmpty then none
  else cs.foldlM (fun n c => (digitIn? base c).map fun d => n * base + d) 0

/-- Whether a text is a number of several digits that begin with zero, after a sign or not. -/
def isPaddedNumber (cs : List Char) : Bool :=
  let digits := match cs with
    | '-' :: rest => rest
    | '+' :: rest => rest
    | _ => cs
  match digits with
  | '0' :: d :: rest => (d :: rest).all Char.isDigit
  | _ => false

/-- The number of a text without sign: in a base that its first two characters name, or decimal. -/
def magnitude? (cs : List Char) : Option Nat :=
  match cs with
  | '0' :: 'x' :: rest => numberIn? 16 rest
  | '0' :: 'o' :: rest => numberIn? 8 rest
  | '0' :: 'b' :: rest => numberIn? 2 rest
  | _ => if isPaddedNumber cs then none else numberIn? 10 cs

/-- The natural number of a text, with a plus sign or without. -/
def naturalOf? (s : String) : Option Nat :=
  match s.toList with
  | '+' :: rest => magnitude? rest
  | cs => magnitude? cs

/-- The integer of a text. -/
def integerOf? (s : String) : Option Int :=
  match s.toList with
  | '-' :: rest => (magnitude? rest).map fun n => -(n : Int)
  | _ => (naturalOf? s).map Int.ofNat

/-! ### Numbers -/

/-- The sign and the digits of an exponent. -/
def exponentOf? (cs : List Char) : Option Int :=
  match cs with
  | '-' :: rest => (numberIn? 10 rest).map fun n => -(n : Int)
  | '+' :: rest => (numberIn? 10 rest).map Int.ofNat
  | _ => (numberIn? 10 cs).map Int.ofNat

/-- The double nearest to a decimal, with exponents beyond all doubles cut short. -/
def decimalDouble (digits : Nat) (e : Int) : Float :=
  let size : Int := Nat.log2 digits
  if digits = 0 then 0.0
  else if 400 < e then 1.0 / 0.0
  else if e + size < -400 then 0.0
  else (Decimal.Digits.mk digits e).toFloat

/-- The number of a text without sign: digits with a point and an exponent, each perhaps left
out. -/
def unsignedReal? (cs : List Char) : Option Float := do
  let (body, exponent) := match cs.span fun c => c != 'e' && c != 'E' with
    | (body, []) => (body, some 0)
    | (body, _ :: rest) => (body, exponentOf? rest)
  let e ← exponent
  let (whole, fraction) := match body.span (· != '.') with
    | (whole, []) => (whole, [])
    | (whole, _ :: rest) => (whole, rest)
  let digits ← numberIn? 10 (whole ++ fraction)
  return decimalDouble digits (e - (fraction.length : Nat))

/-- The finite number of a text with its sign. -/
def finiteReal? (cs : List Char) : Option Float := do
  let x ← match cs with
    | '-' :: rest => (unsignedReal? rest).map fun x => -x
    | '+' :: rest => unsignedReal? rest
    | _ => unsignedReal? cs
  if x.isFinite then some x else none

/-- The number of a text. -/
def realOf? (s : String) : Option Float :=
  if [".inf", ".Inf", ".INF", "+.inf", "+.Inf", "+.INF"].contains s then some (1.0 / 0.0)
  else if ["-.inf", "-.Inf", "-.INF"].contains s then some (-1.0 / 0.0)
  else if [".nan", ".NaN", ".NAN"].contains s then some (0.0 / 0.0)
  else finiteReal? s.toList

/-! ### Meanings -/

/-- What a plain scalar means. -/
inductive Meaning where
  | null
  | flag (b : Bool)
  | integer (n : Int)
  | real (x : Float)
  | text
deriving Repr, Inhabited

/-- What a plain scalar means.  Integers have at most 128 bits; longer ones are numbers. -/
def meaningOf (s : String) : Meaning :=
  if s = "" || isNullWord s then .null
  else
    match flagOf? s with
    | some b => .flag b
    | none =>
      match (integerOf? s).filter fun n => -Int.pow 2 127 ≤ n && n < Int.pow 2 128 with
      | some n => .integer n
      | none =>
        if isPaddedNumber s.toList then .text
        else
          match realOf? s with
          | some x => .real x
          | none => .text

end AgentSwarm.Yaml
