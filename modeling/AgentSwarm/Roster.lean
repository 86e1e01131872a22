/-
**The roster of a swarm.**

A roster keeps its agents in the order of their registration.  Ids are unique, and the peers of each
agent are always the ids of all the others.

Main definitions:

* `AgentSwarm.Roster` — the agents in the order of their registration;
* `AgentSwarm.Roster.add`, `AgentSwarm.Roster.setStatus` — the two changes that can fail;
* `AgentSwarm.Roster.recordOutcome` — one more record for an agent.

Main results:

* `AgentSwarm.Roster.ids_linkPeers` — linking peers changes no id;
* `AgentSwarm.Roster.add_eq_error_iff` — registration fails exactly for a taken id.
-/

import AgentSwarm.Agent.Basic
import AgentSwarm.Text.Order

set_option relaxedAutoImplicit false
set_option autoImplicit false

namespace AgentSwarm

/-- The agents of a swarm in the order of their registration. -/
structure Roster where
  agents : List Agent
deriving Repr, Inhabited

namespace Roster

/-- No agents. -/
def empty : Roster := ⟨[]⟩

/-- The ids in the order of registration. -/
def ids (r : Roster) : List String := r.agents.map (·.id)

/-- Whether an id is taken. -/
def contains (r : Roster) (id : String) : Bool := r.ids.contains id

/-- The agent of an id. -/
def get? (r : Roster) (id : String) : Option Agent := r.agents.find? (·.id = id)

/-- Every agent linked to all others. -/
def linkPeers (agents : List Agent) : List Agent :=
  let ids := Text.sortedSet (agents.map (·.id))
  agents.map fun a => { a with peers := ids.filter (· ≠ a.id) }

/-- The roster with one more agent; a taken id is refused. -/
def add (r : Roster) (a : Agent) : Except SwarmError Roster :=
  if r.contains a.id then .error (.duplicateAgent a.id)
  else .ok ⟨linkPeers (r.agents ++ [a])⟩

/-- The roster with the first agent of an id changed. -/
def modifyFirst (id : String) (f : Agent → Agent) : List Agent → List Agent
  | [] => []
  | a :: rest => if a.id = id then f a :: rest else a :: modifyFirst id f rest

/-- The roster with the status of an agent changed. -/
def setStatus (r : Roster) (id : String) (status : Status) : Except SwarmError Roster :=
  if r.contains id then .ok ⟨modifyFirst id (fun a => { a with status }) r.agents⟩
  else .error (.unknownAgent id)

/-- The roster with one more record for an agent; unknown ids change nothing. -/
def recordOutcome (r : Roster) (id : String) (record : TaskRecord Float) : Roster :=
  ⟨modifyFirst id (fun a => { a with history := a.history.record record }) r.agents⟩

/-- The number of agents that take part in tasks. -/
def activeCount (r : Roster) : Nat := r.agents.countP (·.isActive)

/-- The partitions of the agents, ascending. -/
def partitions (r : Roster) : List String := Text.sortedSet (r.agents.map (·.partition))

/-- The specializations of the agents, ascending. -/
def specializations (r : Roster) : List String :=
  Text.sortedSet (r.agents.map (·.specialization))

@[simp] theorem ids_linkPeers (agents : List Agent) :
    (linkPeers agents).map (·.id) = agents.map (·.id) := by
  simp [linkPeers]

theorem add_eq_error_iff {r : Roster} {a : Agent} {e : SwarmError} :
    r.add a = .error e ↔ a.id ∈ r.ids ∧ e = .duplicateAgent a.id := by
  by_cases h : a.id ∈ r.ids
  · simp [add, contains, h, eq_comm]
  · simp [add, contains, h]

end Roster

end AgentSwarm
