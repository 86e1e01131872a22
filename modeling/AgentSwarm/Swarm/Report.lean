/-
**What a swarm reports.**

Main definitions:

* `AgentSwarm.TaskReport` — the consensus of a task with the results of all agents;
* `AgentSwarm.SwarmStatus` — the agents of a swarm and what they have done so far.
-/

import AgentSwarm.Consensus.Result

set_option relaxedAutoImplicit false
set_option autoImplicit false

namespace AgentSwarm

/-- The consensus of a task with the results of all agents. -/
structure TaskReport where
  taskId : String
  consensus : ConsensusResult Float
  /-- The results, ascending by agent. -/
  results : List (String × AgentResult Float)
  executionMillis : Nat
  /-- The digits of the swarm's identifier. -/
  swarmId : List Char
  swarmName : String
  agentCount : Nat
  algorithm : Algorithm
  strategy : String
  finishedAt : Timestamp
deriving Inhabited

namespace TaskReport

/-- Whether the task has a consensus. -/
def succeeded (r : TaskReport) : Bool := r.consensus.value.isSome

/-- The written form of what is told about the swarm. -/
def metadataForm : Form :=
  .record "SwarmMetadata" [("swarm_id", .required, .identifier), ("name", .required, .text),
    ("agent_count", .required, .whole .size), ("algorithm", .required, Algorithm.form),
    ("strategy", .required, .text), ("timestamp", .required, .moment)]

/-- The written form of a report. -/
def form : Form :=
  .record "SwarmResult" [("task_id", .required, .text),
    ("consensus", .required, ConsensusResult.form),
    ("individual_results", .required, .table AgentResult.form),
    ("execution_time_ms", .required, .whole .word64),
    ("swarm_metadata", .required, metadataForm)]

/-- A report as it is written. -/
def toDatum (r : TaskReport) : Datum :=
  .record [.text r.taskId, r.consensus.toDatum,
    .table (r.results.map fun (id, result) => (id, result.toDatum)), .whole r.executionMillis,
    .record [.identifier r.swarmId, .text r.swarmName, .whole r.agentCount,
      .word r.algorithm.name, .text r.strategy, .moment r.finishedAt]]

end TaskReport

/-- The agents of a swarm and what they have done so far. -/
structure SwarmStatus where
  swarmId : List Char
  name : String
  agentCount : Nat
  activeAgents : Nat
  totalTasks : Nat
  averageConfidence : Float
  averageExecutionMillis : Float
  partitions : List String
  specializations : List String
  strategy : String
deriving Inhabited

namespace SwarmStatus

/-- The written form of a status. -/
def form : Form :=
  .record "SwarmStatus" [("swarm_id", .required, .identifier), ("name", .required, .text),
    ("agent_count", .required, .whole .size), ("active_agents", .required, .whole .size),
    ("total_tasks", .required, .whole .word64), ("average_confidence", .required, .real),
    ("average_execution_time_ms", .required, .real), ("partitions", .required, .list .text),
    ("specializations", .required, .list .text), ("strategy", .required, .text)]

/-- A status as it is written. -/
def toDatum (s : SwarmStatus) : Datum :=
  .record [.identifier s.swarmId, .text s.name, .whole s.agentCount, .whole s.activeAgents,
    .whole s.totalTasks, .real s.averageConfidence, .real s.averageExecutionMillis,
    .list (s.partitions.map .text), .list (s.specializations.map .text), .text s.strategy]

end SwarmStatus

end AgentSwarm
