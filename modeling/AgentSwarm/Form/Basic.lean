/-
**Wire forms.**

A form says how the values of one type look when they are written down: which fields a record has
and in which order, what an absent field stands for, which words an enumeration knows.  A datum is
a value as a form describes it; each type of the library that is written down has a form and two
functions between its values and data.

Main definitions:

* `AgentSwarm.Datum` — a value as it is written down;
* `AgentSwarm.Form` — the shape of such a value;
* `AgentSwarm.FieldRule` — what becomes of an absent field;
* `AgentSwarm.Form.expecting` — how a form is called in messages.
-/

import AgentSwarm.Json.Basic
import AgentSwarm.Duration
import AgentSwarm.Timestamp
import AgentSwarm.Identifier

set_option relaxedAutoImplicit false
set_option autoImplicit false

namespace AgentSwarm

/-- A value as it is written down. -/
inductive Datum where
  /-- An optional value that is not there. -/
  | absent
  | text (s : String)
  | flag (b : Bool)
  | whole (n : Nat)
  | real (x : Float)
  | single (x : Float32)
  | span (d : Duration)
  | moment (t : Timestamp)
  /-- The digits of an identifier. -/
  | identifier (digits : List Char)
  | value (v : Json)
  | list (items : List Datum)
  /-- Entries in ascending order of their keys. -/
  | table (entries : List (String × Datum))
  /-- A word of an enumeration. -/
  | word (w : String)
  /-- The fields of a record in the order of its form. -/
  | record (fields : List Datum)
  /-- The tag of an alternative and its fields. -/
  | tagged (tag : String) (fields : List Datum)
deriving Inhabited

/-- How many bits a whole number has, and the name that messages use. -/
inductive Width where
  | word32 | word64 | size
deriving DecidableEq, Repr

/-- The greatest number of a width. -/
def Width.max : Width → Nat
  | .word32 => UInt32.size - 1
  | .word64 | .size => UInt64.size - 1

/-- How a width is called in messages. -/
def Width.label : Width → String
  | .word32 => "u32"
  | .word64 => "u64"
  | .size => "usize"

/-- What becomes of a field of a record. -/
structure FieldRule where
  /-- What an absent field stands for; none when it must be there. -/
  missing : Option Datum
  /-- Whether the field is left out in writing when its value is absent. -/
  hideAbsent : Bool

/-- A field that must be there. -/
def FieldRule.required : FieldRule := ⟨none, false⟩

/-- A field that has a value when it is left out. -/
def FieldRule.default (d : Datum) : FieldRule := ⟨some d, false⟩

/-- An optional field that is not written when it is absent.  In a list of fields it must still be
there. -/
def FieldRule.hidden : FieldRule := ⟨none, true⟩

/-- An optional field that is not written when it is absent and may be missing in a list of
fields. -/
def FieldRule.hiddenDefault : FieldRule := ⟨some .absent, true⟩

/-- How values of a type are written down. -/
inductive Form where
  | text
  | flag
  | whole (width : Width)
  | real
  /-- A number of single precision. -/
  | single
  | span
  | moment
  | identifier
  /-- Any JSON value. -/
  | value
  /-- A JSON object. -/
  | object
  | optional (inner : Form)
  | list (item : Form)
  | table (item : Form)
  /-- One of some words. -/
  | word (options : List String)
  | record (name : String) (fields : List (String × FieldRule × Form))
  /-- One of some alternatives, each with a tag, a name and fields; `tag` is the field that holds
  the tag. -/
  | tagged (name tag : String)
      (alternatives : List (String × String × List (String × FieldRule × Form)))
deriving Inhabited

/-- The names of fields. -/
def fieldNames (fields : List (String × FieldRule × Form)) : List String := fields.map Prod.fst

/-- How a form is called in messages. -/
def Form.expecting : Form → String
  | .text => "a string"
  | .flag => "a boolean"
  | .whole width => width.label
  | .real => "f64"
  | .single => "f32"
  | .span => "a duration"
  | .moment => "an RFC 3339 formatted date and time string"
  | .identifier => "a UUID string"
  | .value => "any valid JSON value"
  | .object => "a map"
  | .optional _ => "option"
  | .list _ => "a sequence"
  | .table _ => "a map"
  | .word _ => "string or map"
  | .record name _ => "struct " ++ name
  | .tagged name _ _ => "internally tagged enum " ++ name

/-- Whether a field of this form may be missing without a rule for it. -/
def Form.isOptional : Form → Bool
  | .optional _ => true
  | _ => false

end AgentSwarm
