/-
**128-bit identifiers.**

An identifier is written as 32 hexadecimal digits in five groups.  It is read with or without the
hyphens, and also in braces or behind `urn:uuid:`.

Main definitions:

* `AgentSwarm.Identifier.parse` — the 32 digits of a text, with the cause of a failure;
* `AgentSwarm.Identifier.text` — the digits in groups of 8, 4, 4, 4 and 12.
-/

import AgentSwarm.Text.Blank
import AgentSwarm.Text.Digits
import AgentSwarm.Decimal.Notation

set_option relaxedAutoImplicit false
set_option autoImplicit false

namespace AgentSwarm.Identifier

/-- Why a text is no identifier. -/
inductive Fault where
  /-- A character that is no digit, and its place counted from one. -/
  | character (c : Char) (index : Nat)
  /-- A wrong number of digits without hyphens. -/
  | length (found : Nat)
  /-- A wrong number of groups. -/
  | groups (found : Nat)
  /-- A group of wrong length. -/
  | groupLength (group expected found : Nat)
deriving DecidableEq, Repr

/-- A number in words. -/
def shownNat (n : Nat) : String := String.ofList (Decimal.natChars n)

/-- The wording of a fault. -/
def Fault.message : Fault → String
  | .character c index =>
    "invalid character: found `" ++ String.singleton c ++ "` at " ++ shownNat index
  | .length found =>
    "invalid length: expected length 32 for simple format, found " ++ shownNat found
  | .groups found => "invalid group count: expected 5, found " ++ shownNat found
  | .groupLength group expected found =>
    "invalid group length in group " ++ shownNat group ++ ": expected " ++ shownNat expected ++
      ", found " ++ shownNat found

/-- The lengths of the groups. -/
def groupLengths : List Nat := [8, 4, 4, 4, 12]

/-- A text without braces or the words before it, how many bytes those took, and whether there were
none. -/
def unwrap (cs : List Char) : List Char × Nat × Bool :=
  match cs, cs.getLast? with
  | '{' :: rest, some '}' => (rest.dropLast, 1, false)
  | _, _ =>
    match Text.stripPrefix? "urn:uuid:".toList cs with
    | some rest => (rest, 9, false)
    | none => (cs, 0, true)

/-- The first character that is neither a digit nor a hyphen, and its place. -/
def strayCharacter : Nat → List Char → Option (Char × Nat)
  | _, [] => none
  | index, c :: rest =>
    if c = '-' ∨ Text.isHexDigit c then strayCharacter (index + c.utf8Size) rest
    else some (c, index)

/-- The first group of wrong length. -/
def wrongGroup (bare total : Nat) : Nat → List Nat → List (List Char) → Fault
  | i, n :: ns, g :: gs =>
    if ns.isEmpty then .groupLength i n (total - bare)
    else if g.length ≠ n then .groupLength i n g.length else wrongGroup bare total (i + 1) ns gs
  | i, _, _ => .groups i

/-- The 32 digits of an identifier in lower case. -/
def parse (text : String) : Except Fault (List Char) :=
  let cs := text.toList
  let (body, offset, bare) := unwrap cs
  let groups := Text.pieces '-' body
  let digits := (body.filter (· ≠ '-')).map Char.toLower
  if body.all (fun c => c == '-' || Text.isHexDigit c) &&
      ((bare && body.length == 32 && groups.length == 1) ||
        groups.map List.length == groupLengths) then .ok digits
  else
    match strayCharacter 0 body with
    | some (c, index) => .error (.character c (index + offset + 1))
    | none =>
      if groups.length = 1 ∧ bare then .error (.length cs.length)
      else if groups.length ≠ 5 then .error (.groups groups.length)
      else .error (wrongGroup 24 cs.length 0 groupLengths groups)

/-- The digits in groups with hyphens between them. -/
def text (digits : List Char) : String :=
  String.ofList (digits.take 8 ++ '-' :: (digits.drop 8).take 4 ++ '-' :: (digits.drop 12).take 4 ++
    '-' :: (digits.drop 16).take 4 ++ '-' :: digits.drop 20)

end AgentSwarm.Identifier
