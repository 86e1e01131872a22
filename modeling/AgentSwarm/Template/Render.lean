/-
**Filling in templates.**

A value is looked up in the data and written without any escaping; what is not there is written as
nothing.  Rendering fails where a section, a helper or an inserted template is not known.

Main definitions:

* `AgentSwarm.Template.isTruthy` — whether a value shows a section;
* `AgentSwarm.Template.resolve` — the value at a path;
* `AgentSwarm.Template.render` — a template filled in.
-/

import AgentSwarm.Template.Reader
import AgentSwarm.Json.Writer

set_option relaxedAutoImplicit false
set_option autoImplicit false

namespace AgentSwarm.Template

open AgentSwarm

/-! ### Values -/

/-- Whether a value shows a section: empty texts, lists and objects, zero, `false` and `null` do
not. -/
def isTruthy (withZero : Bool) : Json → Bool
  | .null => false
  | .bool b => b
  | .int n => withZero || n != 0
  | .real x => if withZero then !x.isNaN else x != 0
  | .str s => !s.isEmpty
  | .arr items => !items.isEmpty
  | .obj members => !members.isEmpty

mutual

/-- How a value is written. -/
def shown : Json → List Char
  | .str s => s.toList
  | .null => []
  | .arr items => '[' :: (shownItems items ++ [']'])
  | .obj _ => "[object]".toList
  | .bool b => Json.chars (R := Float) (.bool b)
  | .int n => Json.chars (R := Float) (.int n)
  | .real x => Json.chars (.real x)

/-- How the elements of a list are written. -/
def shownItems : List Json → List Char
  | [] => []
  | v :: rest => shown v ++ (if rest.isEmpty then [] else ", ".toList ++ shownItems rest)

end

/-! ### Looking up -/

/-- The value at hand and what the enclosing loop provides. -/
structure Frame where
  value : Json
  locals : List (String × Json)
deriving Inhabited

/-- The value one key further. -/
def child (key : String) : Json → Option Json
  | .obj members => members.lookup key
  | .arr items => key.toNat?.bind fun i => items[i]?
  | _ => none

/-- The value behind some keys. -/
def descend (v : Json) (keys : List String) : Option Json :=
  keys.foldlM (fun v key => child key v) v

/-- The value at a path, seen from the innermost of some frames. -/
def resolve (frames : List Frame) (p : Path) : Option Json :=
  if p.fromRoot then frames.getLast?.bind fun f => descend f.value p.keys
  else
    match frames.drop p.up with
    | [] => none
    | f :: _ =>
      if p.isLocal then
        match p.keys with
        | [] => none
        | key :: keys => (f.locals.lookup key).bind fun v => descend v keys
      else descend f.value p.keys

/-! ### Helpers -/

/-- What a helper without a section makes of its arguments; none for an unknown helper or too few
arguments. -/
def applyHelper (name : String) (args : List Json) : Option Json :=
  match name, args with
  | "lookup", v :: key :: _ =>
    match v, key with
    | .arr items, .int i => some ((if 0 ≤ i then items[i.toNat]? else none).getD .null)
    | .obj members, .str k => some ((members.lookup k).getD .null)
    | _, _ => some .null
  | "log", _ => some .null
  | "eq", a :: b :: _ => some (.bool (a.same b))
  | "ne", a :: b :: _ => some (.bool !a.same b)
  | "and", a :: b :: _ => some (.bool (isTruthy false a && isTruthy false b))
  | "or", a :: b :: _ => some (.bool (isTruthy false a || isTruthy false b))
  | "not", a :: _ => some (.bool !isTruthy false a)
  | "len", a :: _ =>
    match a with
    | .arr items => some (.int items.length)
    | .obj members => some (.int members.length)
    | .str s => some (.int (Text.utf8Length s.toList))
    | _ => some (.int 0)
  | _, _ => none

/-- The names of all helpers. -/
def helperNames : List String :=
  ["if", "unless", "with", "each", "raw", "lookup", "log", "eq", "ne", "and", "or", "not", "len"]

mutual

/-- The value an operand stands for; a path that leads nowhere stands for `null`. -/
def evaluate (frames : List Frame) : Operand → Option Json
  | .literal v => some v
  | .path p => some ((resolve frames p).getD .null)
  | .call name args => do applyHelper name (← evaluateAll frames args)

/-- The values some operands stand for. -/
def evaluateAll (frames : List Frame) : List Operand → Option (List Json)
  | [] => some []
  | x :: rest => do return (← evaluate frames x) :: (← evaluateAll frames rest)

end

/-- The name of a helper that a path names by itself. -/
def helperNamed? : Operand → Option String
  | .path ⟨false, false, 0, [key]⟩ => if key ∈ helperNames then some key else none
  | _ => none

/-- The value shown for an operand. -/
def showOperand (frames : List Frame) (x : Operand) : Option (List Char) :=
  match helperNamed? x with
  | some "raw" => some []
  | some name => (applyHelper name []).map shown
  | none => (evaluate frames x).map shown

/-! ### Rendering -/

/-- Writes some nodes, given the enclosing frames. -/
abbrev Renderer := List Frame → Option (List Char)

/-- What a loop over a list provides for one element. -/
def itemFrame (count index : Nat) (v : Json) : Frame :=
  ⟨v, [("index", .int index), ("first", .bool (index == 0)), ("last", .bool (index + 1 == count))]⟩

/-- What a loop over an object provides for one member. -/
def memberFrame (count index : Nat) (key : String) (v : Json) : Frame :=
  let f := itemFrame count index v
  { f with locals := ("key", .str key) :: f.locals }

/-- The frames of the rounds of a loop; none over anything but a list or an object. -/
def loopFrames : Json → Option (List Frame)
  | .arr items => some (items.zipIdx.map fun (v, i) => itemFrame items.length i v)
  | .obj members =>
    some (members.zipIdx.map fun ((key, v), i) => memberFrame members.length i key v)
  | _ => none

/-- A section with its two branches. -/
def renderSection (c : Call) (body otherwise : Renderer) : Renderer := fun frames => do
  let args ← evaluateAll frames c.args
  match c.name, args with
  | "if", v :: _ | "unless", v :: _ =>
    let zero ← evaluate frames ((c.settings.lookup "includeZero").getD (.literal (.bool false)))
    let withZero := match zero with | .bool b => b | _ => false
    if isTruthy withZero v == (c.name == "if") then body frames else otherwise frames
  | "with", v :: _ =>
    if isTruthy false v then body (⟨v, []⟩ :: frames) else otherwise frames
  | "each", v :: _ =>
    match loopFrames v with
    | none | some [] => otherwise frames
    | some rounds => do
      let texts ← rounds.mapM fun f => body (f :: frames)
      return texts.flatten
  | "raw", _ => body frames
  | name, args => (applyHelper name args).map shown

mutual

/-- Writes one node. -/
def renderNode : Node → Renderer
  | .text cs => fun _ => some cs
  | .value x => fun frames => showOperand frames x
  | .call c => fun frames => do
    (applyHelper c.name (← evaluateAll frames c.args)).map shown
  | .branch c body otherwise => renderSection c (renderNodes body) (renderNodes otherwise)
  | .insertion => fun _ => none

/-- Writes some nodes. -/
def renderNodes : List Node → Renderer
  | [] => fun _ => some []
  | n :: rest => fun frames => do
    let text ← renderNode n frames
    let texts ← renderNodes rest frames
    return text ++ texts

end

/-- A template filled in with data; none when it is broken or calls for something unknown. -/
def render (source : String) (data : Json) : Option String := do
  let nodes ← parse source
  let text ← renderNodes nodes [⟨data, []⟩]
  return String.ofList text

end AgentSwarm.Template
