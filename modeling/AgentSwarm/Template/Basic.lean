/-
**Templates.**

A template is a text with places that are filled in from a JSON value, and with sections that are
shown or left out.

Main definitions:

* `AgentSwarm.Template.Path`, `AgentSwarm.Template.Operand` — how a template names a value;
* `AgentSwarm.Template.Call` — a helper with its arguments;
* `AgentSwarm.Template.Node` — the parts of a template;
* `AgentSwarm.Template.Tag`, `AgentSwarm.Template.Piece` — what stands between double braces, and a
  template cut into tags and the text between them.
-/

import AgentSwarm.Json.Basic

set_option relaxedAutoImplicit false
set_option autoImplicit false

namespace AgentSwarm.Template

/-- Where a value is found. -/
structure Path where
  /-- Whether the path starts at the whole data. -/
  fromRoot : Bool
  /-- Whether it names something that a loop provides. -/
  isLocal : Bool
  /-- How many enclosing values to leave. -/
  up : Nat
  keys : List String
deriving DecidableEq, Repr, Inhabited

/-- What stands for a value. -/
inductive Operand where
  | literal (v : Json)
  | path (p : Path)
  | call (name : String) (args : List Operand)
deriving Inhabited

/-- A helper with its arguments and its named settings. -/
structure Call where
  name : String
  args : List Operand
  settings : List (String × Operand)
deriving Inhabited

/-- A part of a template. -/
inductive Node where
  | text (cs : List Char)
  /-- A value; a word that names a helper calls it. -/
  | value (x : Operand)
  | call (c : Call)
  | branch (c : Call) (body otherwise : List Node)
  /-- Another template; none is known. -/
  | insertion
deriving Inhabited

/-- What stands between double braces. -/
inductive Tag where
  | comment
  | value (x : Operand)
  | call (c : Call)
  | insertion
  | opening (c : Call)
  /-- The other branch of a section, perhaps a section of its own. -/
  | otherwise (c : Option Call)
  | closing (name : String)
deriving Inhabited

/-- How a tag treats the blanks around it. -/
structure Margins where
  /-- All blanks before the tag go. -/
  eatsBefore : Bool
  /-- All blanks after the tag go. -/
  eatsAfter : Bool
  /-- The tag has a line of its own, which goes. -/
  ownLine : Bool
deriving DecidableEq, Repr, Inhabited

/-- A text, or a tag. -/
inductive Piece where
  | text (cs : List Char)
  | tag (t : Tag) (m : Margins)
deriving Inhabited

/-- Whether a tag that is alone on its line takes the line with it. -/
def Tag.takesLine : Tag → Bool
  | .value _ | .call _ => false
  | _ => true

end AgentSwarm.Template
