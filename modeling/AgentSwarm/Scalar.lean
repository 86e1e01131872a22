/-
**The arithmetic that confidences and weights need.**

The consensus rules only add, multiply, divide, compare and take a square root.  They are written
over any type with these operations, so that the rules as they are run on doubles and the rules
over exact numbers are the same definitions.

Main definitions:

* `AgentSwarm.Scalar` — the operations;
* `AgentSwarm.Scalar.sum`, `AgentSwarm.Scalar.mean` — sums taken from left to right;
* `AgentSwarm.Scalar.clampUnit` — a number brought into the unit interval.
-/

import AgentSwarm.Decimal.Notation

set_option relaxedAutoImplicit false
set_option autoImplicit false

namespace AgentSwarm

/-- A type of numbers with the operations of the consensus rules. -/
class Scalar (R : Type) where
  /-- The number of an integer. -/
  ofInt : Int → R
  add : R → R → R
  sub : R → R → R
  mul : R → R → R
  div : R → R → R
  /-- The square root. -/
  sqrt : R → R
  /-- Whether the first number is below the second. -/
  less : R → R → Bool
  /-- Whether the first number is at most the second. -/
  lessEq : R → R → Bool
  /-- Whether two numbers are the same; the two zeros of floating point are. -/
  same : R → R → Bool
  /-- Whether a number can be written down. -/
  isFinite : R → Bool
  /-- Whether it is a number at all. -/
  isNumber : R → Bool
  /-- The greatest difference at which two masses still count as tied. -/
  tolerance : R
  /-- How a number is written in a JSON text. -/
  chars : R → List Char

/-- Doubles with IEEE arithmetic. -/
instance : Scalar Float where
  ofInt n := Float.ofInt n
  add x y := x + y
  sub x y := x - y
  mul x y := x * y
  div x y := x / y
  sqrt x := x.sqrt
  less x y := x < y
  lessEq x y := x ≤ y
  same x y := x == y
  isFinite x := x.isFinite
  isNumber x := !x.isNaN
  tolerance := 1e-12
  chars x := if x.isFinite then Decimal.Notation.json.ofFloat x else ['n', 'u', 'l', 'l']

namespace Scalar

variable {R : Type} [Scalar R]

/-- Zero. -/
def zero : R := ofInt 0

/-- One. -/
def one : R := ofInt 1

/-- The sum from left to right, starting with the first number. -/
def sum : List R → R
  | [] => zero
  | x :: rest => rest.foldl add x

/-- The arithmetic mean; zero for no numbers. -/
def mean (xs : List R) : R :=
  if xs.isEmpty then zero else div (sum xs) (ofInt xs.length)

/-- A number brought between zero and one. -/
def clamp (x : R) : R := if less x zero then zero else if less one x then one else x

/-- A number brought into the unit interval; what is no number becomes zero. -/
def clampUnit (x : R) : R := if isNumber x then clamp x else zero

/-- The product of a number with itself. -/
def square (x : R) : R := mul x x

/-- The distance between two numbers. -/
def distance (x y : R) : R := if less x y then sub y x else sub x y

end Scalar

end AgentSwarm
