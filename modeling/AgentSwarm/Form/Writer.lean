/-
**Writing a datum in a form.**

A record is written as an object with its fields in the order of the form; a field whose rule hides
absent values is left out when it is absent.  The entries of a table and the members of a free JSON
value are written in ascending order of their keys.

A JSON value has doubles only, so a number of single precision stands in the value as the double with
the same shortest decimal.  The text of a datum is therefore not the text of its value: there a number
of single precision has its own notation.

Main definitions:

* `AgentSwarm.Form.toTree` — the JSON value of a datum;
* `AgentSwarm.Form.chars`, `AgentSwarm.Form.write` — its compact text.
-/

import AgentSwarm.Form.Basic
import AgentSwarm.Json.Writer

set_option relaxedAutoImplicit false
set_option autoImplicit false

namespace AgentSwarm.Form

section

variable {A : Type}

/-- The entries of a table, each written. -/
def writtenEntries (write : Datum → A) : List (String × Datum) → List (String × A)
  | [] => []
  | (k, d) :: rest => (k, write d) :: writtenEntries write rest

/-- The members of a record, each written: fields that their rule hides are left out. -/
def writtenMembers : List (String × FieldRule × (Datum → A)) → List Datum → List (String × A)
  | (_, ⟨_, true⟩, _) :: fields, .absent :: ds => writtenMembers fields ds
  | (name, _, write) :: fields, d :: ds => (name, write d) :: writtenMembers fields ds
  | _, _ => []

end

/-! ### Values -/

/-- Writes a datum as a JSON value. -/
abbrev TreeWriter := Datum → Json

mutual

/-- The JSON value of a datum in a form. -/
def toTree : Form → TreeWriter
  | .text => fun d => match d with | .text s => .str s | _ => .null
  | .flag => fun d => match d with | .flag b => .bool b | _ => .null
  | .whole _ => fun d => match d with | .whole n => .int n | _ => .null
  | .real => fun d => match d with | .real x => .real x | _ => .null
  | .single => fun d => match d with | .single x => .real (Decimal.shownSingle x) | _ => .null
  | .span => fun d => match d with | .span s => .str s.text | _ => .null
  | .moment => fun d => match d with | .moment t => .str t.text | _ => .null
  | .identifier => fun d =>
    match d with | .identifier digits => .str (Identifier.text digits) | _ => .null
  | .value => fun d => match d with | .value v => v | _ => .null
  | .object => fun d => match d with | .value v => v | _ => .null
  | .optional inner => fun d => match d with | .absent => .null | d => toTree inner d
  | .list item => fun d =>
    match d with | .list ds => .arr (ds.map (toTree item)) | _ => .null
  | .table item => fun d =>
    match d with | .table entries => .obj (writtenEntries (toTree item) entries) | _ => .null
  | .word _ => fun d => match d with | .word w => .str w | _ => .null
  | .record _ fields => fun d =>
    match d with | .record ds => .obj (writtenMembers (treeWriters fields) ds) | _ => .null
  | .tagged _ tag alternatives => fun d =>
    match d with
    | .tagged w ds =>
      match (alternativeWriters alternatives).lookup w with
      | some fields => .obj ((tag, .str w) :: writtenMembers fields ds)
      | none => .null
    | _ => .null

/-- The fields of a record with the writers of their values. -/
def treeWriters : List (String × FieldRule × Form) → List (String × FieldRule × TreeWriter)
  | [] => []
  | (name, rule, form) :: rest => (name, rule, toTree form) :: treeWriters rest

/-- The alternatives with the writers of their fields. -/
def alternativeWriters : List (String × String × List (String × FieldRule × Form)) →
    List (String × List (String × FieldRule × TreeWriter))
  | [] => []
  | (tag, _, fields) :: rest => (tag, treeWriters fields) :: alternativeWriters rest

end

/-! ### Texts -/

/-- Writes a datum as a JSON text. -/
abbrev TextWriter := Datum → List Char

mutual

/-- The compact text of a datum in a form. -/
def chars : Form → TextWriter
  | .single => fun d => match d with | .single x => Decimal.singleChars x | _ => Json.nullChars
  | .optional inner => fun d => match d with | .absent => Json.nullChars | d => chars inner d
  | .list item => fun d =>
    match d with | .list ds => Json.listChars (ds.map (chars item)) | _ => Json.nullChars
  | .table item => fun d =>
    match d with
    | .table entries => Json.objectChars (writtenEntries (chars item) entries)
    | _ => Json.nullChars
  | .record _ fields => fun d =>
    match d with
    | .record ds => Json.objectChars (writtenMembers (textWriters fields) ds)
    | _ => Json.nullChars
  | .tagged _ tag alternatives => fun d =>
    match d with
    | .tagged w ds =>
      match (alternativeTextWriters alternatives).lookup w with
      | some fields => Json.objectChars ((tag, Json.quote w) :: writtenMembers fields ds)
      | none => Json.nullChars
    | _ => Json.nullChars
  | leaf => fun d => Json.chars (toTree leaf d)

/-- The fields of a record with the writers of their texts. -/
def textWriters : List (String × FieldRule × Form) → List (String × FieldRule × TextWriter)
  | [] => []
  | (name, rule, form) :: rest => (name, rule, chars form) :: textWriters rest

/-- The alternatives with the writers of the texts of their fields. -/
def alternativeTextWriters : List (String × String × List (String × FieldRule × Form)) →
    List (String × List (String × FieldRule × TextWriter))
  | [] => []
  | (tag, _, fields) :: rest => (tag, textWriters fields) :: alternativeTextWriters rest

end

/-- The compact text of a datum in a form. -/
def write (form : Form) (d : Datum) : String := String.ofList (form.chars d)

end AgentSwarm.Form
