/-
**Reading a form from a JSON text.**

The text is read from front to back, and what does not fit is reported where it is met: a wrong
value early in the text comes before a broken text later on.  Fields that a record does not know are
passed over.  The alternatives of a tagged form are the exception: the whole value is read first, since
its tag may come last.

Main definitions:

* `AgentSwarm.Misfit` — a broken text, or a value that does not fit;
* `AgentSwarm.Form.ofText` — the datum at the front of a text in a form;
* `AgentSwarm.Form.read` — the datum of a whole text.
-/

import AgentSwarm.Form.OfTree

set_option relaxedAutoImplicit false
set_option autoImplicit false

namespace AgentSwarm

/-- Why a text has no datum in a form. -/
inductive Misfit where
  /-- The text is no JSON. -/
  | syntaxFault (fault : Json.Fault)
  /-- A value does not fit. -/
  | data (mismatch : Mismatch)
deriving Inhabited

namespace Form

open Json (Fault)

/-- Reads a datum from the front of a text, with as many container levels left as the number
says. -/
abbrev TextReader := Nat → List Char → Except Misfit (Datum × List Char)

/-- A step of reading JSON. -/
def step {A : Type} (e : Except Fault A) : Except Misfit A := e.mapError .syntaxFault

/-- A check of what was read. -/
def check {A : Type} (e : Except Mismatch A) : Except Misfit A := e.mapError .data

/-- The text from its next character that is not a blank; a value must follow. -/
def atValue (cs : List Char) : Except Misfit (Char × List Char) :=
  match Json.skipSpace cs with
  | [] => .error (.syntaxFault (.before .eofInValue []))
  | c :: rest => .ok (c, rest)

/-- What stands where another kind of value was expected; scalars are read to the end, so that a
broken one is reported as such. -/
def foundAt (c : Char) (rest : List Char) : Except Fault Found :=
  if c = '[' then .ok .sequence
  else if c = '{' then .ok .mapping
  else (Json.readValue Json.depthLimit (c :: rest)).map fun (v, _) => .ofJson v

/-- The value at the front of the text is of the wrong kind. -/
def misfit {A : Type} (expected : String) (c : Char) (rest : List Char) : Except Misfit A := do
  let found ← step (foundAt c rest)
  throw (.data (.wrongType found expected))

/-- The text inside a container that is opened. -/
def openContainer {A : Type} (depth : Nat) (c : Char) (rest : List Char)
    (inside : Nat → List Char → Except Misfit A) : Except Misfit A :=
  if depth ≤ 1 then .error (.syntaxFault (.at .tooDeep (c :: rest))) else inside (depth - 1) rest

/-! ### Leaves -/

/-- A string that is read further. -/
def textText (expected : String) (read : String → Except Mismatch Datum) : TextReader :=
  fun _ cs => do
    let (c, rest) ← atValue cs
    if c = '"' then
      let (s, rest) ← step (Json.readString rest)
      return (← check (read s), rest)
    else misfit expected c rest

/-- A number that is read further. -/
def textNumber (expected : String) (read : Json → Except Mismatch Datum) : TextReader :=
  fun _ cs => do
    let (c, rest) ← atValue cs
    if c = '-' then
      let (v, rest) ← step (Json.readNumber true rest)
      return (← check (read v), rest)
    else if c.isDigit then
      let (v, rest) ← step (Json.readNumber false (c :: rest))
      return (← check (read v), rest)
    else misfit expected c rest

/-- A truth value. -/
def textFlag : TextReader := fun _ cs => do
  let (c, rest) ← atValue cs
  if c = 't' then return (.flag true, ← step (Json.readWord ['r', 'u', 'e'] rest))
  else if c = 'f' then return (.flag false, ← step (Json.readWord ['a', 'l', 's', 'e'] rest))
  else misfit Form.flag.expecting c rest

/-- Any value. -/
def textValue : TextReader := fun depth cs => do
  let (v, rest) ← step (Json.readValue depth cs)
  return (.value v.settle, rest)

/-- An object. -/
def textObject : TextReader := fun depth cs => do
  let (c, rest) ← atValue cs
  if c = '{' then textValue depth (c :: rest) else misfit Form.object.expecting c rest

/-- A word, given as a string or as the only key of an object with the value `null`. -/
def textWord (options : List String) : TextReader := fun depth cs => do
  let (c, rest) ← atValue cs
  if c = '"' then
    let (s, rest) ← step (Json.readString rest)
    return (← check (wordOfText options s), rest)
  else if c = '{' then
    openContainer depth c rest fun depth cs => do
      let (d, cs) ← textText "variant identifier" (wordOfText options) depth cs
      let cs ← step (Json.readColon cs)
      let (c, rest) ← atValue cs
      if c = 'n' then
        let cs ← step (Json.readWord ['u', 'l', 'l'] rest)
        match Json.skipSpace cs with
        | [] => throw (.syntaxFault (.before .eofInObject []))
        | c :: rest =>
          if c = '}' then return (d, rest)
          else throw (.syntaxFault (.before .expectedValue (c :: rest)))
      else misfit "unit" c rest
  else throw (.syntaxFault (.at .expectedValue (c :: rest)))

/-! ### Containers -/

/-- The elements of a list, up to its closing bracket. -/
def textItems (read : TextReader) : Nat → Nat → Bool → List Char →
    Except Misfit (List Datum × List Char)
  | 0, _, _, cs => .error (.syntaxFault (.before .eofInList cs))
  | fuel + 1, depth, first, cs => do
    match ← step (Json.nextItem first cs) with
    | none => return ([], ← step (Json.endList cs))
    | some cs =>
      let (d, cs) ← read depth cs
      let (ds, cs) ← textItems read fuel depth false cs
      return (d :: ds, cs)

/-- A list. -/
def textList (read : TextReader) : TextReader := fun depth cs => do
  let (c, rest) ← atValue cs
  if c = '[' then
    openContainer depth c rest fun depth cs => do
      let (ds, cs) ← textItems read (cs.length + 1) depth true cs
      return (.list ds, cs)
  else misfit "a sequence" c rest

/-- The entries of a table, up to its closing brace; the last of equal keys is kept. -/
def textEntries (read : TextReader) : Nat → Nat → Bool → List (String × Datum) → List Char →
    Except Misfit (List (String × Datum) × List Char)
  | 0, _, _, _, cs => .error (.syntaxFault (.before .eofInObject cs))
  | fuel + 1, depth, first, got, cs => do
    match ← step (Json.nextKey first cs) with
    | none => return (got, ← step (Json.endObject cs))
    | some cs =>
      let (k, cs) ← step (Json.readString cs)
      let cs ← step (Json.readColon cs)
      let (d, cs) ← read depth cs
      textEntries read fuel depth false (insertMember k d got) cs

/-- A table. -/
def textTable (read : TextReader) : TextReader := fun depth cs => do
  let (c, rest) ← atValue cs
  if c = '{' then
    openContainer depth c rest fun depth cs => do
      let (entries, cs) ← textEntries read (cs.length + 1) depth true [] cs
      return (.table entries, cs)
  else misfit "a map" c rest

/-! ### Records -/

/-- A field with the reader of its value. -/
abbrev TextField := String × FieldRule × Form × TextReader

/-- The given fields of a record, up to its closing brace. -/
def textMembers (fields : List TextField) : Nat → Nat → Bool → List (String × Datum) → List Char →
    Except Misfit (List (String × Datum) × List Char)
  | 0, _, _, _, cs => .error (.syntaxFault (.before .eofInObject cs))
  | fuel + 1, depth, first, got, cs => do
    match ← step (Json.nextKey first cs) with
    | none => return (got, cs)
    | some cs =>
      let (k, cs) ← step (Json.readString cs)
      match fields.lookup k with
      | none =>
        let cs ← step (Json.readColon cs)
        textMembers fields fuel depth false got (← step (Json.skipValue cs))
      | some (_, _, read) =>
        if (got.lookup k).isSome then throw (.data (.duplicateField k))
        let cs ← step (Json.readColon cs)
        let (d, cs) ← read depth cs
        textMembers fields fuel depth false ((k, d) :: got) cs

/-- The fields of a record given as a list, of which `index` have been read. -/
def textFieldList (expected : String) :
    Nat → List TextField → Nat → Bool → List Char → Except Misfit (List Datum × List Char)
  | _, [], _, _, cs => .ok ([], cs)
  | index, (_, rule, _, read) :: fields, depth, first, cs => do
    match ← step (Json.nextItem first cs) with
    | some cs =>
      let (d, cs) ← read depth cs
      let (ds, cs) ← textFieldList expected (index + 1) fields depth false cs
      return (d :: ds, cs)
    | none =>
      match rule.missing with
      | some d =>
        let (ds, cs) ← textFieldList expected index fields depth first cs
        return (d :: ds, cs)
      | none => throw (.data (.wrongLength index expected))

/-- A record. -/
def textRecord (called : String) (fields : List TextField) : TextReader := fun depth cs => do
  let (c, rest) ← atValue cs
  if c = '{' then
    openContainer depth c rest fun depth cs => do
      let (got, cs) ← textMembers fields (cs.length + 1) depth true [] cs
      let ds ← check (gather got (fields.map fun (name, rule, form, _) => (name, rule, form)))
      return (.record ds, ← step (Json.endObject cs))
  else if c = '[' then
    openContainer depth c rest fun depth cs => do
      let expected := called ++ " with " ++ elementsText fields.length
      let (ds, cs) ← textFieldList expected 0 fields depth true cs
      return (.record ds, ← step (Json.endList cs))
  else misfit called c rest

/-! ### Tagged alternatives -/

/-- The tag and the other members of an object, up to its closing brace. -/
def textTagged (tag : String) (words : List String) : Nat → Nat → Bool → Option String →
    List (String × Json) → List Char →
    Except Misfit (Option String × List (String × Json) × List Char)
  | 0, _, _, _, _, cs => .error (.syntaxFault (.before .eofInObject cs))
  | fuel + 1, depth, first, got, others, cs => do
    match ← step (Json.nextKey first cs) with
    | none => return (got, others.reverse, cs)
    | some cs =>
      let (k, cs) ← step (Json.readString cs)
      if k = tag then
        if got.isSome then throw (.data (.duplicateField tag))
        let cs ← step (Json.readColon cs)
        let (d, cs) ← textText "variant identifier" (wordOfText words) depth cs
        match d with
        | .word w => textTagged tag words fuel depth false (some w) others cs
        | _ => throw (.data (.missingField tag))
      else
        let cs ← step (Json.readColon cs)
        let (v, cs) ← step (Json.readValue depth cs)
        textTagged tag words fuel depth false got ((k, v) :: others) cs

/-- One of some alternatives. -/
def textAlternatives (name tag : String) (alternatives : List (String × String × List TreeField)) :
    TextReader := fun depth cs => do
  let words := alternatives.map Prod.fst
  let (c, rest) ← atValue cs
  if c = '{' then
    openContainer depth c rest fun depth cs => do
      let (w, members, cs) ← textTagged tag words (cs.length + 1) depth true none [] cs
      match w with
      | none => throw (.data (.missingField tag))
      | some w =>
        let cs ← step (Json.endObject cs)
        return (← check (treeAlternative name alternatives w (.obj members)), cs)
  else if c = '[' then
    openContainer depth c rest fun depth cs => do
      match ← step (Json.nextItem true cs) with
      | none => throw (.data (.missingField tag))
      | some cs =>
        let (d, cs) ← textText "variant identifier" (wordOfText words) depth cs
        match d with
        | .word w =>
          let (items, cs) ← step (Json.readItemsAt (2 * cs.length + 2) depth false cs)
          return (← check (treeAlternative name alternatives w (.arr items)), cs)
        | _ => throw (.data (.missingField tag))
  else misfit ("internally tagged enum " ++ name) c rest

/-! ### Forms -/

mutual

/-- The datum at the front of a text in a form, and the text after it. -/
def ofText : Form → TextReader
  | .text => textText Form.text.expecting fun s => .ok (.text s)
  | .flag => textFlag
  | .whole width => textNumber width.label (treeWhole width)
  | .real => textNumber Form.real.expecting (ofTree .real)
  | .single => textNumber Form.single.expecting (ofTree .single)
  | .span => textText Form.span.expecting spanOfText
  | .moment => textText Form.moment.expecting momentOfText
  | .identifier => textText Form.identifier.expecting identifierOfText
  | .value => textValue
  | .object => textObject
  | .optional inner => fun depth cs => do
    let (c, rest) ← atValue cs
    if c = 'n' then return (.absent, ← step (Json.readWord ['u', 'l', 'l'] rest))
    else ofText inner depth (c :: rest)
  | .list item => textList (ofText item)
  | .table item => textTable (ofText item)
  | .word options => textWord options
  | .record name fields => textRecord ("struct " ++ name) (textReaders fields)
  | .tagged name tag alternatives => textAlternatives name tag (treeAlternatives alternatives)

/-- The fields of a record with the readers of their values. -/
def textReaders : List (String × FieldRule × Form) → List TextField
  | [] => []
  | (name, rule, form) :: rest => (name, rule, form, ofText form) :: textReaders rest

end

/-- The datum of a whole text in a form. -/
def read (form : Form) (text : String) : Except Misfit Datum := do
  let (d, rest) ← form.ofText Json.depthLimit text.toList
  step (Json.endText rest)
  return d

end Form

end AgentSwarm
