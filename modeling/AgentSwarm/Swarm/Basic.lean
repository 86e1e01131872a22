/-
**Swarms.**

A swarm gives tasks to its agents and reduces their answers to a consensus.  It tells its observers
what happens, keeps the history of its agents and counts its tasks.  A task that is abandoned leaves
no trace in the histories and counts.

Main definitions:

* `AgentSwarm.Swarm` — a roster with a running executor and what is needed to reduce answers;
* `AgentSwarm.Swarm.addAgent`, `AgentSwarm.Swarm.setStatus` — changes of the roster;
* `AgentSwarm.Swarm.beginTask`, `AgentSwarm.Swarm.step?` — tasks under way;
* `AgentSwarm.Swarm.status` — what the swarm has done so far.
-/

import AgentSwarm.Consensus.Aggregate
import AgentSwarm.EventBus
import AgentSwarm.Executor.Run
import AgentSwarm.Roster
import AgentSwarm.Swarm.Report

set_option relaxedAutoImplicit false
set_option autoImplicit false

namespace AgentSwarm

/-! ### The state of a swarm -/

/-- A task that is under way. -/
structure OpenTask where
  /-- The call to the executor. -/
  call : Nat
  taskId : String
  algorithm : Algorithm
  startedAt : Nat
deriving DecidableEq, Repr, Inhabited

/-- The agents of a swarm with all that runs their tasks. -/
structure Swarm where
  /-- The digits of the swarm's identifier. -/
  id : List Char
  name : String
  roster : Roster
  world : World
  voteKey : VoteKey Float
  prompts : PromptBuilder
  defaultAlgorithm : Algorithm
  historyWindow : Nat
  bus : Option EventBus
  openTasks : List OpenTask
  /-- The reports of finished tasks by the calls they came from, latest first. -/
  reports : List (Nat × TaskReport)
  totalTasks : Nat
  totalMillis : Nat
deriving Inhabited

namespace Swarm

/-- The history window of a swarm for which none is given. -/
def defaultWindow : Nat := 100

/-- The text of the swarm's identifier. -/
def idText (s : Swarm) : String := Identifier.text s.id

/-- The present time. -/
def now (s : Swarm) : Timestamp := .ofMillis s.world.now

/-- The strategy of the swarm. -/
def strategy (s : Swarm) : Strategy := s.world.executor.strategy

/-! ### Observers -/

/-- The swarm after observers were told what happened. -/
def tell (s : Swarm) (kind : EventKind) : Swarm :=
  { s with bus := s.bus.map fun b => b.publish ⟨s.idText, kind, s.now⟩ }

/-- The event of an agent's result. -/
def resultEvent (r : AgentResult Float) : TaskEvent :=
  match r.failure? with
  | none => .agentCompleted r.agentId r.confidence r.metrics.executionMillis
  | some (error, kind) => .agentFailed r.agentId kind.name error

/-- The event of a consensus. -/
def consensusEvent (algorithm : Algorithm) (c : ConsensusResult Float) : TaskEvent :=
  match c.value with
  | some _ => .consensusReached algorithm.name c.confidence c.agreement c.participants.length
  | none => .consensusFailed algorithm.name (c.error?.getD "No usable agent results")

/-! ### The roster -/

/-- The swarm with one more agent. -/
def addAgent (s : Swarm) (id specialization : String) (role : Role) (partition profile : String) :
    Except SwarmError Swarm := do
  let agent := Agent.create id specialization role partition profile s.historyWindow
  let roster ← s.roster.add agent
  return { s with roster }.tell (.agentRegistered id specialization partition)

/-- The swarm with the status of an agent changed. -/
def setStatus (s : Swarm) (id : String) (status : Status) : Except SwarmError Swarm := do
  return { s with roster := ← s.roster.setStatus id status }

/-! ### Tasks -/

/-- The swarm with a task under way, and the number of its call. -/
def beginTask (s : Swarm) (task : Task) (algorithm : Option Algorithm) : Swarm × Nat :=
  let algorithm := algorithm.getD s.defaultAlgorithm
  let call := s.world.nextCall
  let s := s.tell (.task task.id
    (.started task.taskType s.roster.agents.length s.strategy.name))
  let world := s.world.beginCall s.roster.agents task s.prompts
  let opened : OpenTask := ⟨call, task.id, algorithm, s.world.now⟩
  ({ s with world, openTasks := s.openTasks ++ [opened] }, call)

/-- What an agent's history keeps of a result; disabled agents keep nothing. -/
def recordOf (taskId : String) (r : AgentResult Float) : Option (TaskRecord Float) :=
  if (r.failure?.map Prod.snd) = some .agentDisabled then none
  else some ⟨taskId, r.isSuccess, r.confidence, r.metrics.executionMillis, r.finishedAt⟩

/-- The roster after the results of a task. -/
def recordResults (taskId : String) (results : List (String × AgentResult Float))
    (roster : Roster) : Roster :=
  ⟨roster.agents.map fun a =>
    match (results.lookup a.id).bind (recordOf taskId) with
    | some record => { a with history := a.history.record record }
    | none => a⟩

/-- The swarm after the results of a task came in: histories, events, counts and the report. -/
def conclude (s : Swarm) (t : OpenTask) (results : List (String × AgentResult Float)) : Swarm :=
  let consensus := aggregate s.voteKey t.algorithm results
  let s := { s with roster := recordResults t.taskId results s.roster }
  let s := s.tell (.task t.taskId (consensusEvent t.algorithm consensus))
  let millis := s.world.now - t.startedAt
  let report : TaskReport :=
    { taskId := t.taskId, consensus, results, executionMillis := millis, swarmId := s.id
      swarmName := s.name, agentCount := s.roster.agents.length, algorithm := t.algorithm
      strategy := s.strategy.name, finishedAt := s.now }
  { s with
    openTasks := s.openTasks.filter (·.call != t.call)
    reports := (t.call, report) :: s.reports
    totalTasks := s.totalTasks + 1
    totalMillis := s.totalMillis + millis }

/-- The task that a call works on. -/
def openTask? (s : Swarm) (call : Nat) : Option OpenTask := s.openTasks.find? (·.call == call)

/-- The swarm after something was seen of its executor. -/
def absorb (s : Swarm) (o : Occurrence) : Swarm :=
  match o with
  | .dispatched call index ids _ =>
    match s.openTask? call with
    | some t => s.tell (.task t.taskId (.batchDispatched index ids.length))
    | none => s
  | .reported call r =>
    match s.openTask? call with
    | some t => s.tell (.task t.taskId (resultEvent r))
    | none => s
  | .returned call results _ =>
    match s.openTask? call with
    | some t => s.conclude t results
    | none => s
  | .sent _ _ _ | .ended _ _ => s

/-- The open tasks after an action: an abandoned one is forgotten. -/
def openAfter (s : Swarm) : Action → List OpenTask
  | .abandon call => s.openTasks.filter (·.call != call)
  | _ => s.openTasks

/-- The swarm after a step of its executor, and what is seen of it. -/
def step? (s : Swarm) (a : Action) : Option (Swarm × List Occurrence) :=
  match s.world.step? a with
  | none => none
  | some (world, seen) =>
    some (seen.foldl absorb { s with world, openTasks := s.openAfter a }, seen)

/-- A swarm as a host of steps. -/
def host : Host Swarm := ⟨world, step?⟩

/-! ### Status -/

/-- What the swarm has done so far. -/
def status (s : Swarm) : SwarmStatus :=
  let averages := (s.roster.agents.filter fun a => !a.history.isEmpty).map
    fun a => a.history.averageConfidence
  { swarmId := s.id, name := s.name, agentCount := s.roster.agents.length
    activeAgents := s.roster.activeCount, totalTasks := s.totalTasks
    averageConfidence := Scalar.mean averages
    averageExecutionMillis :=
      if s.totalTasks = 0 then 0 else Float.ofNat s.totalMillis / Float.ofNat s.totalTasks
    partitions := s.roster.partitions, specializations := s.roster.specializations
    strategy := s.strategy.name }

end Swarm

end AgentSwarm
