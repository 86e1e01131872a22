/-
**Reading a form from a YAML text.**

The text must be one document.  What does not fit is reported with its path from the top of the
document, in the order of the text.  A plain scalar fits wherever a text is wanted.  An empty value fits a record, a table and a list without entries, other words for null do
not.  Free values and tagged alternatives are not read from YAML.

Main definitions:

* `AgentSwarm.YamlMisfit` — a broken text, or a value that does not fit, with its path;
* `AgentSwarm.Form.ofNode` — the datum of a node in a form;
* `AgentSwarm.Form.ofYaml` — the datum of a text.

Main results:

* `AgentSwarm.Form.ofNode_text` — any scalar fits a text.
-/

import AgentSwarm.Form.Mismatch
import AgentSwarm.Json.Basic
import AgentSwarm.Yaml.Core
import AgentSwarm.Yaml.Node

set_option relaxedAutoImplicit false
set_option autoImplicit false

namespace AgentSwarm

/-- Why a text has no datum in a form. -/
inductive YamlMisfit where
  /-- The text is not one document. -/
  | broken
  /-- A value does not fit. -/
  | data (path : String) (mismatch : Mismatch)
deriving Inhabited

/-- The wording of a mismatch with its path. -/
def YamlMisfit.message : YamlMisfit → String
  | .broken => "not a single document"
  | .data path m => if path = "" then m.message .yaml else path ++ ": " ++ m.message .yaml

namespace Form

open Yaml (Node)

/-! ### What was found -/

/-- What a plain scalar is called. -/
def foundPlain (text : String) : Found :=
  match Yaml.meaningOf text with
  | .null => .null
  | .flag b => .flag b
  | .integer n => if -Int.pow 2 63 ≤ n ∧ n < UInt64.size then .whole n else .wide n
  | .real x => .real x
  | .text => .text text

/-- The tag of a kind of scalar. -/
def coreTag (kind : String) : String := "tag:yaml.org,2002:" ++ kind

/-- The name of a tag that is not one of the core tags. -/
def localTag? (s : Yaml.Scalar) : Option (List Char) :=
  s.tag.bind fun tag => Text.stripPrefix? ['!'] tag.toList

/-- Why a scalar does not fit. -/
def scalarMismatch (expected : String) (s : Yaml.Scalar) : Mismatch :=
  let plain : Mismatch := .wrongType (foundPlain s.text) expected
  let quoted : Mismatch := .wrongType (.text s.text) expected
  let tagged (found : Option Found) (what : String) : Mismatch :=
    match found with
    | some f => .wrongType f expected
    | none => .wrongValue (.text s.text) what
  match s.tag with
  | none => if s.style = .plain then plain else quoted
  | some tag =>
    if tag = coreTag "bool" then tagged ((Yaml.flagOf? s.text).map .flag) "a boolean"
    else if tag = coreTag "int" then tagged ((Yaml.integerOf? s.text).map .whole) "an integer"
    else if tag = coreTag "float" then tagged ((Yaml.realOf? s.text).map .real) "a float"
    else if tag = coreTag "null" then
      tagged (if Yaml.isNullWord s.text then some .null else none) "null"
    else if (localTag? s).isSome && s.style = .plain then plain
    else quoted

/-- Whether a scalar may be read as a kind of value: it is plain, or a literal block with the tag. -/
def isBare (kind : String) (s : Yaml.Scalar) : Bool :=
  s.style == .plain || (s.style == .literal && s.tag == some (coreTag kind))

/-- Whether a scalar is left out. -/
def isLeftOut (s : Yaml.Scalar) : Bool := s.text == "" && s.style == .plain

/-- Whether a scalar is null where a value is optional. -/
def isAbsent (s : Yaml.Scalar) : Bool :=
  s.style == .plain &&
    match s.tag with
    | none => s.text == "" || Yaml.isNullWord s.text
    | some tag => tag == coreTag "null" && Yaml.isNullWord s.text

/-- Whether a scalar is said to be null but is not. -/
def isFalseNull (s : Yaml.Scalar) : Bool :=
  s.style == .plain && s.tag == some (coreTag "null") && !Yaml.isNullWord s.text

/-- Whether a scalar stands for nothing. -/
def isNothing (s : Yaml.Scalar) : Bool :=
  s.style == .plain && (s.text == "" || Yaml.isNullWord s.text)

/-! ### Walking through nodes -/

/-- The nodes of the anchors. -/
abbrev Anchors := List (Nat × Node)

/-- The node itself, or the one of its anchor. -/
def target (anchors : Anchors) : Node → Node
  | .reference id => (anchors.lookup id).getD .void
  | n => n

/-- Reads a datum at a path. -/
abbrev NodeReader := String → Node → Except YamlMisfit Datum

/-- A node does not fit. -/
def misfitNode {A : Type} (expected path : String) : Node → Except YamlMisfit A
  | .scalar s => .error (.data path (scalarMismatch expected s))
  | .sequence _ => .error (.data path (.wrongType .sequence expected))
  | .mapping _ => .error (.data path (.wrongType .mapping expected))
  | .void | .reference _ => .error .broken

/-- The path of an element. -/
def itemPath (path : String) (i : Nat) : String :=
  (if path = "" then "." else path) ++ "[" ++ String.ofList (Decimal.natChars i) ++ "]"

/-- The path of an entry. -/
def entryPath (path key : String) : String := if path = "" then key else path ++ "." ++ key

/-- A check at a path. -/
def checkAt {A : Type} (path : String) (e : Except Mismatch A) : Except YamlMisfit A :=
  e.mapError (.data path)

@[simp] theorem checkAt_ok {A : Type} (path : String) (a : A) : checkAt path (.ok a) = .ok a := rfl

/-! ### Scalars -/

/-- A scalar's text that is read further. -/
def nodeText (expected : String) (read : String → Except Mismatch Datum) : NodeReader :=
  fun path n =>
    match n with
    | .scalar s => checkAt path (read s.text)
    | n => misfitNode expected path n

/-- A bare scalar that is read further. -/
def nodeBare (kind expected : String) (read : String → Option (Except Mismatch Datum)) :
    NodeReader := fun path n =>
  match n with
  | .scalar s =>
    match if isBare kind s then read s.text else none with
    | some d => checkAt path d
    | none => misfitNode expected path n
  | n => misfitNode expected path n

/-- The natural numbers of 64 bits. -/
def word64? (s : String) : Option Nat := (Yaml.naturalOf? s).filter (· < UInt64.size)

/-- A word of an enumeration: the text, or the tag of nothing. -/
def nodeWord (options : List String) : NodeReader := fun path n =>
  match n with
  | .scalar s =>
    match localTag? s with
    | none => checkAt path (wordOfText options s.text)
    | some tag => do
      let d ← checkAt path (wordOfText options (String.ofList tag))
      if isNothing s then .ok d else .error (.data path (scalarMismatch "unit" s))
  | n => misfitNode "a YAML tag starting with '!'" path n

/-! ### Collections -/

/-- The elements of a sequence from the place `i` on. -/
def nodeItems (read : NodeReader) (path : String) : Nat → List Node →
    Except YamlMisfit (List Datum)
  | _, [] => .ok []
  | i, n :: rest => do return (← read (itemPath path i) n) :: (← nodeItems read path (i + 1) rest)

/-- The text of a key. -/
def keyText (anchors : Anchors) (expected path : String) (k : Node) : Except YamlMisfit String :=
  match target anchors k with
  | .scalar s => .ok s.text
  | n => misfitNode expected path n

/-- The path of the value of a key; a key that only refers to a scalar has no name. -/
def valuePath (path : String) : Node → String
  | .scalar s => entryPath path s.text
  | _ => entryPath path "?"

/-- The entries of a table, the last of equal keys kept. -/
def nodeEntries (anchors : Anchors) (read : NodeReader) (path : String)
    (got : List (String × Datum)) : List (Node × Node) → Except YamlMisfit (List (String × Datum))
  | [] => .ok got
  | (k, v) :: rest => do
    let key ← keyText anchors "a string" path k
    let d ← read (valuePath path k) v
    nodeEntries anchors read path (insertMember key d got) rest

/-- A field with the reader of its value. -/
abbrev NodeField := String × FieldRule × Form × NodeReader

/-- The given fields of a record; unknown ones are passed over. -/
def nodeMembers (anchors : Anchors) (fields : List NodeField) (path : String)
    (got : List (String × Datum)) : List (Node × Node) → Except YamlMisfit (List (String × Datum))
  | [] => .ok got
  | (k, v) :: rest => do
    let key ← keyText anchors "field identifier" path k
    match fields.lookup key with
    | none => nodeMembers anchors fields path got rest
    | some (_, _, read) =>
      if (got.lookup key).isSome then throw (.data path (.duplicateField key))
      let d ← read (valuePath path k) v
      nodeMembers anchors fields path ((key, d) :: got) rest

/-- The entries of a node that stands for a mapping. -/
def entriesOf (expected path : String) : Node → Except YamlMisfit (List (Node × Node))
  | .mapping entries => .ok entries
  | .void => .ok []
  | .scalar s => if isLeftOut s then .ok [] else misfitNode expected path (.scalar s)
  | n => misfitNode expected path n

/-- The elements of a node that stands for a sequence. -/
def itemsOf (expected path : String) : Node → Except YamlMisfit (List Node)
  | .sequence items => .ok items
  | .void => .ok []
  | .scalar s => if isLeftOut s then .ok [] else misfitNode expected path (.scalar s)
  | n => misfitNode expected path n

/-- A record. -/
def nodeRecord (anchors : Anchors) (called : String) (fields : List NodeField) : NodeReader :=
  fun path n => do
    let got ← nodeMembers anchors fields path [] (← entriesOf called path n)
    let ds ← checkAt path (gather got (fields.map fun (name, rule, form, _) => (name, rule, form)))
    return .record ds

/-- A list. -/
def nodeList (read : NodeReader) : NodeReader := fun path n => do
  return .list (← nodeItems read path 0 (← itemsOf "a sequence" path n))

/-- A table. -/
def nodeTable (anchors : Anchors) (read : NodeReader) : NodeReader := fun path n => do
  return .table (← nodeEntries anchors read path [] (← entriesOf "a map" path n))

/-! ### Forms -/

mutual

/-- The datum of a node in a form. -/
def ofNode (anchors : Anchors) (form : Form) : NodeReader := fun path n =>
  let n := target anchors n
  match form with
  | .text => nodeText Form.text.expecting (fun s => .ok (.text s)) path n
  | .flag =>
    nodeBare "bool" Form.flag.expecting (fun s => (Yaml.flagOf? s).map fun b => .ok (.flag b)) path n
  | .whole width =>
    nodeBare "int" width.label (fun s => (word64? s).map fun n => width.ofInt n) path n
  | .real =>
    nodeBare "float" Form.real.expecting (fun s => (Yaml.realOf? s).map fun x => .ok (.real x)) path n
  | .single =>
    nodeBare "float" Form.single.expecting
      (fun s => (Yaml.realOf? s).map fun x => .ok (.single (Decimal.singleOfDouble x))) path n
  | .span => nodeText Form.span.expecting spanOfText path n
  | .moment => nodeText Form.moment.expecting momentOfText path n
  | .identifier => nodeText Form.identifier.expecting identifierOfText path n
  | .value | .object | .tagged _ _ _ => misfitNode form.expecting path n
  | .optional inner =>
    match n with
    | .void => .ok .absent
    | .scalar s =>
      if isAbsent s then .ok .absent
      else if isFalseNull s then .error (.data path (scalarMismatch "null" s))
      else ofNode anchors inner path n
    | n => ofNode anchors inner path n
  | .list item => nodeList (ofNode anchors item) path n
  | .table item => nodeTable anchors (ofNode anchors item) path n
  | .word options => nodeWord options path n
  | .record name fields =>
    nodeRecord anchors ("struct " ++ name) (nodeReaders anchors fields) path n

/-- The fields of a record with the readers of their values. -/
def nodeReaders (anchors : Anchors) : List (String × FieldRule × Form) → List NodeField
  | [] => []
  | (name, rule, form) :: rest =>
    (name, rule, form, ofNode anchors form) :: nodeReaders anchors rest

end

theorem ofNode_text (anchors : Anchors) (path : String) (s : Yaml.Scalar) :
    ofNode anchors .text path (.scalar s) = .ok (.text s.text) := by
  simp [ofNode, target, nodeText]

/-- The datum of a text in a form. -/
def ofYaml (form : Form) (text : String) : Except YamlMisfit Datum :=
  match Yaml.Document.ofText? text with
  | some document => ofNode document.anchors form "" document.root
  | none => .error .broken

end Form

end AgentSwarm
