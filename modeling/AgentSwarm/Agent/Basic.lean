/-
**Agents.**

Main definitions:

* `AgentSwarm.Agent` — an agent of a swarm with its peers and its history;
* `AgentSwarm.Agent.create` — a fresh agent.
-/

import AgentSwarm.Agent.Role
import AgentSwarm.Agent.History

set_option relaxedAutoImplicit false
set_option autoImplicit false

namespace AgentSwarm

/-- The profile of an agent for which none is named. -/
def defaultProfile : String := "default"

/-- An agent of a swarm.  The time at which it was made is told when it registers, and not kept. -/
structure Agent where
  id : String
  specialization : String
  role : Role
  /-- The partition whose quota its calls use. -/
  partition : String
  /-- What the backend picks a model by. -/
  profile : String
  status : Status
  /-- The ids of the other agents, ascending. -/
  peers : List String
  history : History Float
deriving Repr, Inhabited

namespace Agent

/-- An active agent without peers and without history. -/
def create (id specialization : String) (role : Role) (partition profile : String)
    (window : Nat) : Agent :=
  { id, specialization, role, partition, profile
    status := .active, peers := [], history := .empty window }

/-- Whether an agent takes part in tasks. -/
def isActive (a : Agent) : Bool := a.status = .active

end Agent

end AgentSwarm
