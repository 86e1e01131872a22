/-
**Reading a form from a JSON value.**

The value is at hand as a whole, its members in the order in which they were given, perhaps with
equal keys.  A record may be given as an object or as the list of its fields.

Main definitions:

* `AgentSwarm.Form.ofTree` — the datum of a JSON value in a form.
-/

import AgentSwarm.Form.Mismatch
import AgentSwarm.Json.Reader

set_option relaxedAutoImplicit false
set_option autoImplicit false

namespace AgentSwarm

/-- What a JSON value is called in messages. -/
def Found.ofJson : Json → Found
  | .null => .null
  | .bool b => .flag b
  | .int n => .whole n
  | .real x => .real x
  | .str s => .text s
  | .arr _ => .sequence
  | .obj _ => .mapping

namespace Form

/-- Reads a datum from a JSON value. -/
abbrev TreeReader := Json → Except Mismatch Datum

/-- The value is of the wrong kind. -/
def unfit (expected : String) (v : Json) : Except Mismatch Datum :=
  .error (.wrongType (.ofJson v) expected)

/-- A string that is read further. -/
def treeText (expected : String) (read : String → Except Mismatch Datum) : TreeReader
  | .str s => read s
  | v => unfit expected v

/-- A whole number. -/
def treeWhole (width : Width) : TreeReader
  | .int n => width.ofInt n
  | v => unfit width.label v

/-- The single-precision number of a number; an integer is not made a double before. -/
def singleOf : Json → Option Float32
  | .int n => some (Decimal.singleOfInt n)
  | .real x => some (Decimal.singleOfDouble x)
  | _ => none

/-- The elements of a list in order. -/
def treeItems (read : TreeReader) : List Json → Except Mismatch (List Datum)
  | [] => .ok []
  | v :: rest => do return (← read v) :: (← treeItems read rest)

/-- The entries of a table, the last of equal keys kept. -/
def treeEntries (read : TreeReader) (got : List (String × Datum)) :
    List (String × Json) → Except Mismatch (List (String × Datum))
  | [] => .ok got
  | (k, v) :: rest => do treeEntries read (insertMember k (← read v) got) rest

/-- A word, given as a string or as the only key of an object with an empty value. -/
def treeWord (options : List String) : TreeReader
  | .str s => wordOfText options s
  | .obj [(k, v)] => do
    let w ← wordOfText options k
    match v with
    | .null => return w
    | .obj [] => return w
    | v => unfit "unit" v
  | .obj _ => .error (.wrongValue .mapping "map with a single key")
  | v => unfit "string or map" v

/-- A field with the reader of its value. -/
abbrev TreeField := String × FieldRule × Form × TreeReader

/-- The given fields of a record; unknown keys are passed over. -/
def treeMembers (fields : List TreeField) (got : List (String × Datum)) :
    List (String × Json) → Except Mismatch (List (String × Datum))
  | [] => .ok got
  | (k, v) :: rest =>
    match fields.lookup k with
    | none => treeMembers fields got rest
    | some (_, _, read) => do
      if (got.lookup k).isSome then throw (.duplicateField k)
      treeMembers fields ((k, ← read v) :: got) rest

/-- The fields of a record given as a list; `index` fields have been read of `total`. -/
def treeFieldList (expected : String) (total : Nat) :
    Nat → List TreeField → List Json → Except Mismatch (List Datum)
  | _, [], [] => .ok []
  | _, [], rest => .error (.wrongLength (total + rest.length) (elementsText total ++ " in sequence"))
  | index, (_, _, _, read) :: fields, v :: rest => do
    return (← read v) :: (← treeFieldList expected total (index + 1) fields rest)
  | index, (_, rule, _, _) :: fields, [] =>
    match rule.missing with
    | some d => do return d :: (← treeFieldList expected total index fields [])
    | none => .error (.wrongLength index expected)

/-- The fields of a record that messages call `called`. -/
def treeFields (called : String) (fields : List TreeField) (v : Json) :
    Except Mismatch (List Datum) :=
  match v with
  | .obj members => do
    let got ← treeMembers fields [] members
    gather got (fields.map fun (name, rule, form, _) => (name, rule, form))
  | .arr items =>
    treeFieldList (called ++ " with " ++ elementsText fields.length) fields.length 0 fields items
  | v => .error (.wrongType (.ofJson v) called)

/-- The tag of an alternative, and the value without it. -/
def treeTag (name tag : String) : Json → Except Mismatch (Json × Json)
  | .obj members =>
    match members.filter fun m => m.1 == tag with
    | [] => .error (.missingField tag)
    | [(_, t)] => .ok (t, .obj (members.filter fun m => m.1 != tag))
    | _ => .error (.duplicateField tag)
  | .arr [] => .error (.missingField tag)
  | .arr (t :: rest) => .ok (t, .arr rest)
  | v => .error (.wrongType (.ofJson v) ("internally tagged enum " ++ name))

/-- How messages call an alternative. -/
def alternativeCalled (name label : String) : String := "struct variant " ++ name ++ "::" ++ label

/-- The alternative of a tag with its fields. -/
def treeAlternative (name : String) (alternatives : List (String × String × List TreeField))
    (w : String) (v : Json) : Except Mismatch Datum :=
  match alternatives.lookup w with
  | none => .error (.unknownWord w (alternatives.map Prod.fst))
  | some (label, fields) => do
    return .tagged w (← treeFields (alternativeCalled name label) fields v)

mutual

/-- The datum of a JSON value in a form. -/
def ofTree : Form → TreeReader
  | .text => treeText Form.text.expecting fun s => .ok (.text s)
  | .flag => fun v =>
    match v with
    | .bool b => .ok (.flag b)
    | v => unfit Form.flag.expecting v
  | .whole width => treeWhole width
  | .real => fun v =>
    match JsonOf.number? v with
    | some x => .ok (.real x)
    | none => unfit Form.real.expecting v
  | .single => fun v =>
    match singleOf v with
    | some x => .ok (.single x)
    | none => unfit Form.single.expecting v
  | .span => treeText Form.span.expecting spanOfText
  | .moment => treeText Form.moment.expecting momentOfText
  | .identifier => treeText Form.identifier.expecting identifierOfText
  | .value => fun v => .ok (.value v.settle)
  | .object => fun v =>
    match v with
    | .obj members => .ok (.value (JsonOf.obj members).settle)
    | v => unfit Form.object.expecting v
  | .optional inner => fun v => if v.isNull then .ok .absent else ofTree inner v
  | .list item => fun v =>
    match v with
    | .arr items => (treeItems (ofTree item) items).map .list
    | v => unfit "a sequence" v
  | .table item => fun v =>
    match v with
    | .obj members => (treeEntries (ofTree item) [] members).map .table
    | v => unfit "a map" v
  | .word options => treeWord options
  | .record name fields => fun v =>
    (treeFields ("struct " ++ name) (treeReaders fields) v).map .record
  | .tagged name tag alternatives => fun v => do
    let (t, rest) ← treeTag name tag v
    match t with
    | .str w => treeAlternative name (treeAlternatives alternatives) w rest
    | t => unfit "variant identifier" t

/-- The fields of a record with the readers of their values. -/
def treeReaders : List (String × FieldRule × Form) → List TreeField
  | [] => []
  | (name, rule, form) :: rest => (name, rule, form, ofTree form) :: treeReaders rest

/-- The alternatives with the readers of their fields. -/
def treeAlternatives : List (String × String × List (String × FieldRule × Form)) →
    List (String × String × List TreeField)
  | [] => []
  | (tag, label, fields) :: rest => (tag, label, treeReaders fields) :: treeAlternatives rest

end

end Form

end AgentSwarm
