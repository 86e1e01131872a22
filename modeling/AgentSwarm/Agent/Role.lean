/-
**Roles and statuses of agents.**

Main definitions:

* `AgentSwarm.Role`, `AgentSwarm.Status` — what an agent is for, and whether it takes part;
* `AgentSwarm.Role.name`, `AgentSwarm.Role.parse` — the name of a role, and the role of a name.

Main results:

* `AgentSwarm.Role.parse_name` — every role is found under its name.
-/

import AgentSwarm.SwarmError
import AgentSwarm.Text.Blank
import AgentSwarm.Form.Basic

set_option relaxedAutoImplicit false
set_option autoImplicit false

namespace AgentSwarm

/-- What an agent is for. -/
inductive Role where
  | classifier | analyzer | modeler | optimizer | validator | coordinator
deriving DecidableEq, Repr, Inhabited

namespace Role

/-- All roles. -/
def all : List Role := [.classifier, .analyzer, .modeler, .optimizer, .validator, .coordinator]

/-- The name of a role. -/
def name : Role → String
  | .classifier => "classifier"
  | .analyzer => "analyzer"
  | .modeler => "modeler"
  | .optimizer => "optimizer"
  | .validator => "validator"
  | .coordinator => "coordinator"

/-- The role of a name, whatever its case and the blanks around it; an analyst is an analyzer. -/
def parse (text : String) : Except SwarmError Role :=
  let word := Text.normalized text
  if word = "analyst" then .ok .analyzer
  else
    match all.find? fun r => r.name = word with
    | some r => .ok r
    | none => .error (.unknownRole word)

theorem parse_name (r : Role) : parse r.name = .ok r := by
  cases r <;> rfl

/-- The written form of a role. -/
def form : Form := .word (all.map name)

end Role

/-- Whether an agent takes part in tasks. -/
inductive Status where
  | active | disabled
deriving DecidableEq, Repr, Inhabited

namespace Status

/-- The name of a status. -/
def name : Status → String
  | .active => "active"
  | .disabled => "disabled"

/-- The status of a name. -/
def ofName? (s : String) : Option Status :=
  if s = "active" then some .active else if s = "disabled" then some .disabled else none

/-- The written form of a status. -/
def form : Form := .word ["active", "disabled"]

end Status

end AgentSwarm
