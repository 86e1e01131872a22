/-
**Tasks.**

Every agent of a swarm reads the same task.

Main definitions:

* `AgentSwarm.Task` — a unit of work.
-/

import AgentSwarm.Form.Basic

set_option relaxedAutoImplicit false
set_option autoImplicit false

namespace AgentSwarm

/-- Entries of a free JSON object, ascending by key. -/
abbrev Members (R : Type) := List (String × JsonOf R)

/-- A unit of work given to a swarm.  Nothing reads the time at which it was made, so that
stands in its written form only. -/
structure Task where
  id : String
  taskType : String
  payload : Json
  context : Members Float
deriving Inhabited

/-- The written form of a task. -/
def Task.form : Form :=
  .record "SwarmTask" [("task_id", .required, .text), ("task_type", .required, .text),
    ("payload", .required, .value), ("context", .default (.table []), .table .value),
    ("created_at", .required, .moment)]

end AgentSwarm
