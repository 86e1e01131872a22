/-
**How calls go on.**

The world changes in steps.  A call begins, is cancelled or is abandoned at any time; an actor that
is ready goes on as far as it can; and when no actor is ready, time passes to the next alarm.  What
an observer can see of a step are its occurrences.

Main definitions:

* `AgentSwarm.Occurrence` — what an observer sees;
* `AgentSwarm.Action`, `AgentSwarm.World.step?` — the steps, and the world after one;
* `AgentSwarm.World.request?` — the request that an actor would send to the backend.
-/

import AgentSwarm.Executor.World

set_option relaxedAutoImplicit false
set_option autoImplicit false

namespace AgentSwarm

/-! ### Occurrences and actions -/

/-- What an observer sees, with the number of its call. -/
inductive Occurrence where
  /-- A batch is dispatched. -/
  | dispatched (call index : Nat) (agentIds : List String) (time : Nat)
  /-- A request is sent to the backend. -/
  | sent (call : Nat) (request : Request) (time : Nat)
  /-- The backend is no longer waited for. -/
  | ended (call : Nat) (agentId : String)
  /-- The result of an agent is reported, at the end of its batch. -/
  | reported (call : Nat) (result : AgentResult Float)
  /-- A call returns its results. -/
  | returned (call : Nat) (results : List (String × AgentResult Float)) (time : Nat)
deriving Inhabited

/-- A step of the world. -/
inductive Action where
  /-- A call begins. -/
  | begin (agents : List Agent) (task : Task) (prompts : PromptBuilder)
  /-- An actor goes on; `response` is what the backend answers if it is asked in this step. -/
  | run (actor : Actor) (response : Response)
  | cancel (call : Nat)
  /-- The caller no longer waits for the call. -/
  | abandon (call : Nat)
  /-- Time passes. -/
  | pass (time : Nat)

namespace World

/-! ### Permits -/

/-- Gives back a permit: the first who waits gets it. -/
def releasePermit (w : World) (key : Option String) : World :=
  let p := w.pool key
  match p.waiting with
  | [] => w.putPool key { p with free := p.free + 1 }
  | a :: rest =>
    let w := w.putPool key { p with waiting := rest }
    match a with
    | .caller _ => w
    | .invocation id place =>
      match w.call? id with
      | some c => (w.putCall (c.setStage place .admitted)).wake a
      | none => w

/-- Takes an invocation off its pool: it leaves the queue, or gives its permit back. -/
def leavePool (w : World) (call : Nat) (i : Invocation) : World :=
  let key := w.executor.poolOf i.agent.partition
  match i.stage with
  | .fresh => w
  | .queued =>
    let p := w.pool key
    w.putPool key { p with waiting := p.waiting.filter (· != .invocation call i.place) }
  | .admitted | .throttled | .calling _ _ => w.releasePermit key

/-! ### Invocations -/

/-- What is seen when an invocation leaves the backend. -/
def endedIf (call : Nat) (i : Invocation) : List Occurrence :=
  if i.stage.isCalling then [.ended call i.agent.id] else []

/-- An invocation is given up: it leaves its pool, and nobody waits for it any more. -/
def detach (w : World) (call : Nat) (i : Invocation) : World :=
  let w := (w.leavePool call i).forget (.invocation call i.place)
  match w.call? call with
  | none => w
  | some c => w.putCall (c.without i.place)

/-- An invocation ends with a result; the caller goes on after the last one of a batch. -/
def finish (w : World) (call : Nat) (i : Invocation) (ending : Ending) : World :=
  let w := w.detach call i
  match w.call? call with
  | none => w
  | some c =>
    let result := w.executor.resultOf i.agent i.serial i.startedAt w.now ending
    let w := w.putCall { c with gathered := c.gathered ++ [result] }
    if c.live.isEmpty then w.wake (.caller call) else w

/-- What an invocation asks the backend. -/
def requestOf (c : TaskCall) (i : Invocation) : Request :=
  ⟨i.agent.id, i.agent.profile, i.prompt, c.task.context⟩

/-- An invocation that has a permit and a place in its quota asks the backend. -/
def send (w : World) (c : TaskCall) (i : Invocation) (response : Response) :
    World × List Occurrence :=
  let seen : Occurrence := .sent c.id (requestOf c i) w.now
  let (duration, ending) := w.executor.curtail response
  let calling := Stage.calling (w.now + duration) ending
  let w := w.putCall (c.setStage i.place calling)
  if duration = 0 then
    (w.finish c.id { i with stage := calling } ending, [seen, .ended c.id i.agent.id])
  else (w.sleepUntil (w.now + duration) (.invocation c.id i.place), [seen])

/-- Whether the quota of a partition admits a request now: when the next one is due, or until when
it has to wait. -/
def checkQuota (w : World) (partition : String) : Except Nat (Option Nat) :=
  match w.executor.quotaOf partition with
  | none => .ok none
  | some q =>
    match q.check (w.dues.lookup partition) (w.now * 1000000) with
    | .ok due => .ok (some due)
    | .error retry => .error ((Duration.mk retry).ceilMillis)

/-- The world in which the next request of a partition is due at a time. -/
def putDue (w : World) (partition : String) (due : Option Nat) : World :=
  match due with
  | none => w
  | some due => { w with dues := (partition, due) :: w.dues.filter (·.1 != partition) }

/-- An invocation with a permit asks the backend, or waits for its quota. -/
def proceed (w : World) (c : TaskCall) (i : Invocation) (response : Response) :
    World × List Occurrence :=
  match w.checkQuota i.agent.partition with
  | .ok due => (w.putDue i.agent.partition due).send c i response
  | .error time =>
    let w := w.putCall (c.setStage i.place .throttled)
    (w.sleepUntil time (.invocation c.id i.place), [])

/-- An invocation takes a permit, or waits for one. -/
def enter (w : World) (c : TaskCall) (i : Invocation) (response : Response) :
    World × List Occurrence :=
  let key := w.executor.poolOf i.agent.partition
  let p := w.pool key
  if 0 < p.free then
    let w := w.putPool key { p with free := p.free - 1 }
    let c := c.setStage i.place .admitted
    (w.putCall c).proceed c { i with stage := .admitted } response
  else
    let w := w.putPool key { p with waiting := p.waiting ++ [.invocation c.id i.place] }
    (w.putCall (c.setStage i.place .queued), [])

/-- An invocation goes on as far as it can.  Cancellation comes first. -/
def runInvocation (w : World) (c : TaskCall) (i : Invocation) (response : Response) :
    World × List Occurrence :=
  if c.isCancelled then (w.finish c.id i .cancelled, endedIf c.id i)
  else
    match i.stage with
    | .fresh =>
      let c := c.adjust i.place fun j => { j with startedAt := w.now }
      (w.putCall c).enter c { i with startedAt := w.now } response
    | .queued => (w, [])
    | .admitted | .throttled => w.proceed c i response
    | .calling endsAt ending =>
      if endsAt ≤ w.now then (w.finish c.id i ending, endedIf c.id i) else (w, [])

/-! ### Callers -/

/-- What becomes of an agent when its batch is dispatched: a result at once, or a prompt. -/
def prepare (c : TaskCall) (now : Nat) (agent : Agent) : Except (AgentResult Float) String :=
  if !agent.isActive then .error (Executor.disabledResult agent now)
  else
    match c.prompts agent c.task with
    | some prompt => .ok prompt
    | none => .error (Executor.promptlessResult agent now)

/-- The results that a batch has at once, and its invocations, numbered from `serial`. -/
def openBatch (c : TaskCall) (now : Nat) :
    Nat → List (Nat × Agent) → List (AgentResult Float) × List Invocation
  | _, [] => ([], [])
  | serial, (place, agent) :: rest =>
    match prepare c now agent with
    | .error result =>
      let (results, live) := openBatch c now serial rest
      (result :: results, live)
    | .ok prompt =>
      let (results, live) := openBatch c now (serial + 1) rest
      (results, ⟨place, serial, agent, prompt, now, .fresh⟩ :: live)

/-- The agents of a batch with their places. -/
def batchAgents (c : TaskCall) (batch : List Nat) : List (Nat × Agent) :=
  batch.filterMap fun place => (c.agents[place]?).map fun a => (place, a)

/-- The next batch is dispatched. -/
def dispatch (w : World) (c : TaskCall) (batch : List Nat) (rest : List (List Nat)) :
    World × List Occurrence :=
  let members := batchAgents c batch
  let (gathered, live) := openBatch c w.now w.nextSerial members
  let seen : Occurrence := .dispatched c.id c.dispatched (members.map fun m => m.2.id) w.now
  let c := { c with remaining := rest, dispatched := c.dispatched + 1, isPausing := false,
                    live, gathered }
  let w := { w.putCall c with nextSerial := w.nextSerial + live.length }
  let woken := live.map fun i => Actor.invocation c.id i.place
  let next := if live.isEmpty then Actor.caller c.id :: w.ready else w.ready ++ woken
  ({ w with ready := next }, [seen])

/-- Whether the caller pauses before the next batch. -/
def pauses (w : World) (c : TaskCall) : Bool :=
  0 < c.dispatched && !w.executor.strategy.pause.isZero && !c.isCancelled && !c.isPausing

/-- The call with the results of its batch put to the earlier ones. -/
def collect (c : TaskCall) : TaskCall :=
  { c with
    gathered := []
    results := c.gathered.foldl (fun rs r => insertMember r.agentId r rs) c.results }

/-- The caller goes on when no invocation of its batch is left: it reports the results, and then
returns, pauses or dispatches the next batch. -/
def runCaller (w : World) (c : TaskCall) : World × List Occurrence :=
  if !c.live.isEmpty then (w, [])
  else
    let reports := c.gathered.map (Occurrence.reported c.id)
    let c := collect c
    match c.remaining with
    | [] => (w.dropCall c.id, reports ++ [.returned c.id c.results w.now])
    | batch :: rest =>
      if w.pauses c then
        let w := w.putCall { c with isPausing := true }
        let time := w.now + w.executor.strategy.pause.ceilMillis
        (w.sleepUntil time (.caller c.id), reports)
      else
        let (w, seen) := w.dispatch c batch rest
        (w, reports ++ seen)

/-! ### Steps -/

/-- A call begins: its caller is ready. -/
def beginCall (w : World) (agents : List Agent) (task : Task) (prompts : PromptBuilder) : World :=
  let id := w.nextCall
  let c : TaskCall :=
    { id, agents, task, prompts, remaining := w.executor.batches agents, dispatched := 0
      isCancelled := false, isPausing := false, live := [], gathered := [], results := [] }
  ({ w with calls := w.calls ++ [c], nextCall := id + 1 }).wake (.caller id)

/-- An actor that is no longer waited for by an alarm is ready. -/
def rouse (w : World) (a : Actor) : World :=
  ({ w with alarms := w.alarms.filter (·.2 != a) }).wake a

/-- A call is cancelled: all its invocations are ready, and so is its caller when it pauses. -/
def cancelCall (w : World) (c : TaskCall) : World :=
  let w := w.putCall { c with isCancelled := true }
  let w := c.live.foldl (fun w i => w.rouse (.invocation c.id i.place)) w
  if c.isPausing then w.rouse (.caller c.id) else w

/-- An invocation ends without a result. -/
def abandonInvocation (call : Nat) (w : World) (place : Nat) : World :=
  match (w.call? call).bind (·.invocation? place) with
  | none => w
  | some i => w.detach call i

/-- A call is abandoned: its invocations end one after another, and it returns nothing. -/
def abandonCall (w : World) (c : TaskCall) : World × List Occurrence :=
  let w := (c.live.map (·.place)).foldl (abandonInvocation c.id) w
  ((w.dropCall c.id).forget (.caller c.id), c.live.flatMap (endedIf c.id))

/-- Time passes: the actors whose alarms are due are ready. -/
def passTo (w : World) (time : Nat) : World :=
  let due := w.alarms.filter (·.1 ≤ time)
  { w with
    now := time
    alarms := w.alarms.filter fun a => !(a.1 ≤ time)
    ready := w.ready ++ due.map Prod.snd }

/-- An actor goes on. -/
def runActor (w : World) (a : Actor) (response : Response) : World × List Occurrence :=
  let w := { w with ready := w.ready.erase a }
  match w.call? a.call with
  | none => (w, [])
  | some c =>
    match a with
    | .caller _ => w.runCaller c
    | .invocation _ place =>
      match c.invocation? place with
      | none => (w, [])
      | some i => w.runInvocation c i response

/-- Whether time may pass to a time: no actor is ready, and no alarm is missed. -/
def mayPassTo (w : World) (time : Nat) : Bool :=
  w.ready.isEmpty && w.now ≤ time && w.alarms.all fun a => time ≤ a.1

/-- The world after a step, and what is seen of it; none when the step is not possible. -/
def step? (w : World) : Action → Option (World × List Occurrence)
  | .begin agents task prompts => some (w.beginCall agents task prompts, [])
  | .run a response => if a ∈ w.ready then some (w.runActor a response) else none
  | .cancel id => (w.call? id).map fun c => (w.cancelCall c, [])
  | .abandon id => (w.call? id).map fun c => w.abandonCall c
  | .pass time => if w.mayPassTo time then some (w.passTo time, []) else none

/-! ### Requests -/

/-- The request that an actor sends to the backend when it goes on. -/
def request? (w : World) (a : Actor) : Option Request :=
  match w.call? a.call with
  | none => none
  | some c =>
    match a with
    | .caller _ => none
    | .invocation _ place =>
      match c.invocation? place with
      | none => none
      | some i =>
        let admitted :=
          match i.stage with
          | .fresh => 0 < (w.pool (w.executor.poolOf i.agent.partition)).free
          | .admitted | .throttled => true
          | .queued | .calling _ _ => false
        let quota := (w.checkQuota i.agent.partition).isOk
        if !c.isCancelled && admitted && quota then some (requestOf c i) else none

end World

end AgentSwarm
