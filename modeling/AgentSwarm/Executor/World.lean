/-
**Running calls.**

The world of an executor holds all task calls that are under way.  Each call asks the agents of one
batch after another.  Asking an agent is an invocation: it waits for a permit of its pool, then for
the quota of its partition, and then for the backend.  Callers and invocations are actors; those that
can go on are ready, those that wait for a time have an alarm, and the others wait for one of these.

Main definitions:

* `AgentSwarm.Stage`, `AgentSwarm.Invocation` — how far asking an agent has come;
* `AgentSwarm.TaskCall` — a call with its current batch and the results so far;
* `AgentSwarm.Pool` — free permits and those who wait for one, in order;
* `AgentSwarm.World` — all of it at one time, in milliseconds.
-/

import AgentSwarm.Executor.Basic

set_option relaxedAutoImplicit false
set_option autoImplicit false

namespace AgentSwarm

/-! ### Invocations -/

/-- How far an invocation has come. -/
inductive Stage where
  /-- It has not run yet. -/
  | fresh
  /-- It waits for a permit. -/
  | queued
  /-- It has been given a permit. -/
  | admitted
  /-- It has a permit and waits for its quota. -/
  | throttled
  /-- It has a permit and waits for the backend until a time. -/
  | calling (endsAt : Nat) (ending : Ending)
deriving Inhabited

/-- Whether an invocation holds a permit. -/
def Stage.holdsPermit : Stage → Bool
  | .fresh | .queued => false
  | .admitted | .throttled | .calling _ _ => true

/-- Whether an invocation is at the backend. -/
def Stage.isCalling : Stage → Bool
  | .calling _ _ => true
  | _ => false

/-- One agent being asked. -/
structure Invocation where
  /-- The place of the agent in its call. -/
  place : Nat
  /-- The number of the invocation among all. -/
  serial : Nat
  agent : Agent
  prompt : String
  startedAt : Nat
  stage : Stage
deriving Inhabited

/-! ### Calls -/

/-- Makes the prompt of an agent for a task; none when it breaks down. -/
abbrev PromptBuilder := Agent → Task → Option String

/-- A call that asks agents about a task. -/
structure TaskCall where
  id : Nat
  agents : List Agent
  task : Task
  prompts : PromptBuilder
  /-- The batches that are still to be dispatched, as places of agents. -/
  remaining : List (List Nat)
  /-- How many batches were dispatched. -/
  dispatched : Nat
  isCancelled : Bool
  /-- Whether the pause before the next batch has begun. -/
  isPausing : Bool
  /-- The invocations of the current batch that have not ended. -/
  live : List Invocation
  /-- The results of the current batch in the order in which they came. -/
  gathered : List (AgentResult Float)
  /-- The results of earlier batches, ascending by agent. -/
  results : List (String × AgentResult Float)
deriving Inhabited

/-! ### Pools -/

/-- Someone who acts: the caller of a call, or one of its invocations. -/
inductive Actor where
  | caller (call : Nat)
  | invocation (call place : Nat)
deriving DecidableEq, Repr, Inhabited

/-- The call an actor belongs to. -/
def Actor.call : Actor → Nat
  | .caller c => c
  | .invocation c _ => c

/-- Free permits and those who wait for one, in order. -/
structure Pool where
  free : Nat
  waiting : List Actor
deriving Repr, Inhabited

/-! ### Worlds -/

/-- All calls of an executor at one time. -/
structure World where
  executor : Executor
  /-- The time in milliseconds. -/
  now : Nat
  /-- The pools that were used so far. -/
  pools : List (Option String × Pool)
  /-- When the next request of a partition would be due, in nanoseconds. -/
  dues : List (String × Nat)
  calls : List TaskCall
  nextCall : Nat
  nextSerial : Nat
  /-- The actors that can go on, in the order in which they could. -/
  ready : List Actor
  /-- The actors that wait for a time, in the order in which they began to. -/
  alarms : List (Nat × Actor)
deriving Inhabited

namespace World

/-- An executor without calls. -/
def idle (x : Executor) : World :=
  { executor := x, now := 0, pools := [], dues := [], calls := [], nextCall := 0, nextSerial := 1
    ready := [], alarms := [] }

/-! ### Looking up and changing -/

/-- The call of a number. -/
def call? (w : World) (id : Nat) : Option TaskCall := w.calls.find? (·.id == id)

/-- The world with a call in its new state. -/
def putCall (w : World) (c : TaskCall) : World :=
  { w with calls := w.calls.map fun d => if d.id == c.id then c else d }

/-- The world without a call. -/
def dropCall (w : World) (id : Nat) : World :=
  { w with calls := w.calls.filter (·.id != id) }

/-- The pool of a key; one that was never used has all its permits. -/
def pool (w : World) (key : Option String) : Pool :=
  (w.pools.lookup key).getD ⟨w.executor.poolSize, []⟩

/-- The world with a pool in its new state. -/
def putPool (w : World) (key : Option String) (p : Pool) : World :=
  { w with pools := (key, p) :: w.pools.filter (·.1 != key) }

/-- The world with an actor made ready. -/
def wake (w : World) (a : Actor) : World :=
  { w with ready := if w.ready.contains a then w.ready else w.ready ++ [a] }

/-- The world with an actor that waits until a time. -/
def sleepUntil (w : World) (time : Nat) (a : Actor) : World :=
  { w with alarms := w.alarms ++ [(time, a)] }

/-- The world in which an actor neither is ready nor waits for a time. -/
def forget (w : World) (a : Actor) : World :=
  { w with ready := w.ready.filter (· != a), alarms := w.alarms.filter (·.2 != a) }

/-- The earliest alarm. -/
def nextAlarm (w : World) : Option Nat := (w.alarms.map Prod.fst).min?

end World

/-- The call with the invocation for a place changed. -/
def TaskCall.adjust (c : TaskCall) (place : Nat) (f : Invocation → Invocation) : TaskCall :=
  { c with live := c.live.map fun i => if i.place == place then f i else i }

/-- The call with an invocation in a new stage. -/
def TaskCall.setStage (c : TaskCall) (place : Nat) (stage : Stage) : TaskCall :=
  c.adjust place fun i => { i with stage }

/-- The call without the invocation for a place. -/
def TaskCall.without (c : TaskCall) (place : Nat) : TaskCall :=
  { c with live := c.live.filter (·.place != place) }

/-- The invocation for a place. -/
def TaskCall.invocation? (c : TaskCall) (place : Nat) : Option Invocation :=
  c.live.find? (·.place == place)

end AgentSwarm
