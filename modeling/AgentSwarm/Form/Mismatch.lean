/-
**What does not fit a form.**

A mismatch says what was found and what the form asks for.  Its wording depends on the medium: JSON
and YAML call the empty value and large numbers differently.

Main definitions:

* `AgentSwarm.Found` — what stood in the place of a value;
* `AgentSwarm.Mismatch` — why it does not fit;
* `AgentSwarm.Mismatch.message` — the wording in a medium.
-/

import AgentSwarm.Form.Basic
import AgentSwarm.Text.Quoted

set_option relaxedAutoImplicit false
set_option autoImplicit false

namespace AgentSwarm

/-- What stood in the place of a value. -/
inductive Found where
  | null
  | flag (b : Bool)
  | whole (n : Int)
  /-- An integer that no 64-bit word holds. -/
  | wide (n : Int)
  | real (x : Float)
  | text (s : String)
  | sequence
  | mapping
  | enumeration
deriving Inhabited

/-- Why a value does not fit. -/
inductive Mismatch where
  /-- The wrong kind of value. -/
  | wrongType (found : Found) (expected : String)
  /-- The right kind of value, but one that is not allowed. -/
  | wrongValue (found : Found) (expected : String)
  /-- The wrong number of elements. -/
  | wrongLength (length : Nat) (expected : String)
  | missingField (name : String)
  | duplicateField (name : String)
  | unknownWord (word : String) (options : List String)
  | badMoment (fault : Timestamp.Fault)
  | badIdentifier (fault : Identifier.Fault)
deriving Inhabited

/-- The media that values are written in. -/
inductive Medium where
  | json | yaml
deriving DecidableEq, Repr

/-- The text of a number in a message. -/
def Medium.realText (m : Medium) (x : Float) : String :=
  match m with
  | .json => String.ofList (Decimal.Notation.json.ofFloat x)
  | .yaml =>
    if x.isNaN then "NaN"
    else if x.isInf then (if Decimal.isNegative x then "-inf" else "inf")
    else String.ofList (Decimal.Notation.positional.ofFloat x)

/-- The wording of what was found. -/
def Found.wording (m : Medium) : Found → String
  | .null => if m = .json then "null" else "unit value"
  | .flag b => "boolean `" ++ (if b then "true" else "false") ++ "`"
  | .whole n => "integer `" ++ String.ofList (Decimal.intChars n) ++ "`"
  | .wide n =>
    "integer `" ++ String.ofList (Decimal.intChars n) ++ "` as " ++ (if n < 0 then "i128" else "u128")
  | .real x => "floating point `" ++ m.realText x ++ "`"
  | .text s => "string " ++ Text.quoted s
  | .sequence => "sequence"
  | .mapping => "map"
  | .enumeration => "enum"

/-- Words in backticks with commas between them. -/
def wordList (ws : List String) : String :=
  String.ofList (Text.joinWith [',', ' '] (ws.map fun w => ("`" ++ w ++ "`").toList))

/-- The words to choose from. -/
def optionsText : List String → String
  | [] => "there are no variants"
  | [a] => "expected `" ++ a ++ "`"
  | [a, b] => "expected `" ++ a ++ "` or `" ++ b ++ "`"
  | ws => "expected one of " ++ wordList ws

/-- The wording of a mismatch. -/
def Mismatch.message (m : Medium) : Mismatch → String
  | .wrongType found expected => "invalid type: " ++ found.wording m ++ ", expected " ++ expected
  | .wrongValue found expected => "invalid value: " ++ found.wording m ++ ", expected " ++ expected
  | .wrongLength n expected =>
    "invalid length " ++ String.ofList (Decimal.natChars n) ++ ", expected " ++ expected
  | .missingField name => "missing field `" ++ name ++ "`"
  | .duplicateField name => "duplicate field `" ++ name ++ "`"
  | .unknownWord w options => "unknown variant `" ++ w ++ "`, " ++ optionsText options
  | .badMoment fault => fault.message
  | .badIdentifier fault => "UUID parsing failed: " ++ fault.message

/-- A number of elements in words. -/
def elementsText (n : Nat) : String :=
  String.ofList (Decimal.natChars n) ++ (if n = 1 then " element" else " elements")

/-! ### Leaves -/

/-- A whole number of a width. -/
def Width.ofInt (w : Width) (n : Int) : Except Mismatch Datum :=
  if 0 ≤ n ∧ n ≤ w.max then .ok (.whole n.toNat) else .error (.wrongValue (.whole n) w.label)

/-- A duration from its text. -/
def spanOfText (s : String) : Except Mismatch Datum :=
  match Duration.parse s with
  | some d => .ok (.span d)
  | none => .error (.wrongValue (.text s) Form.span.expecting)

/-- A timestamp from its text. -/
def momentOfText (s : String) : Except Mismatch Datum :=
  match Timestamp.parse s with
  | .ok t => .ok (.moment t)
  | .error fault => .error (.badMoment fault)

/-- An identifier from its text. -/
def identifierOfText (s : String) : Except Mismatch Datum :=
  match Identifier.parse s with
  | .ok digits => .ok (.identifier digits)
  | .error fault => .error (.badIdentifier fault)

/-- A word of an enumeration. -/
def wordOfText (options : List String) (s : String) : Except Mismatch Datum :=
  if s ∈ options then .ok (.word s) else .error (.unknownWord s options)

/-- The value of a field that was not given: its rule, or nothing when its form is optional. -/
def absentField (name : String) (rule : FieldRule) (form : Form) : Except Mismatch Datum :=
  match rule.missing with
  | some d => .ok d
  | none => if form.isOptional then .ok .absent else .error (.missingField name)

/-- The fields of a record from those that were given, in the order of the form. -/
def gather (given : List (String × Datum)) :
    List (String × FieldRule × Form) → Except Mismatch (List Datum)
  | [] => .ok []
  | (name, rule, form) :: rest =>
    match given.lookup name with
    | some d => (gather given rest).map (d :: ·)
    | none => do return (← absentField name rule form) :: (← gather given rest)

end AgentSwarm
