/-
**Executors.**

An executor asks the agents of a task, in the batches of its strategy.  The calls of a batch share a
pool of permits, one pool for all or one for every partition, and partitions may have quotas.

Main definitions:

* `AgentSwarm.Executor` — a strategy with its settings;
* `AgentSwarm.Request`, `AgentSwarm.Reply`, `AgentSwarm.Response` — what a backend is asked, what it
  replies, and after which time;
* `AgentSwarm.Ending`, `AgentSwarm.Executor.resultOf` — how a call ends, and the result it gives.

Main results:

* `AgentSwarm.Executor.create_eq_ok_iff` — which strategies and settings make an executor.
-/

import AgentSwarm.Agent.Basic
import AgentSwarm.Outcome
import AgentSwarm.Quota
import AgentSwarm.Strategy.Plan
import AgentSwarm.Text.Quoted

set_option relaxedAutoImplicit false
set_option autoImplicit false

namespace AgentSwarm

/-! ### Executors -/

/-- How calls are made. -/
structure ExecutorSettings where
  /-- The most time for one call. -/
  agentTimeout : Duration
  /-- Calls per minute for partitions, ascending by partition. -/
  partitionQuotas : List (String × Nat)
  /-- The confidence of an answer that reports none. -/
  defaultConfidence : Float
deriving Repr, Inhabited

/-- The settings of an executor for which none are given. -/
def ExecutorSettings.standard : ExecutorSettings := ⟨.ofSeconds 30, [], 0.5⟩

/-- A strategy with its settings. -/
structure Executor where
  strategy : Strategy
  settings : ExecutorSettings
deriving Repr, Inhabited

namespace Executor

/-- The most permits of a pool, whatever a strategy asks for. -/
def maxPool : Nat := 256

/-- The executor of a strategy; the strategy must be valid and no quota may be zero. -/
def create (strategy : Strategy) (settings : ExecutorSettings) : Except SwarmError Executor :=
  match strategy.validate with
  | .error e => .error e
  | .ok () =>
    match settings.partitionQuotas.find? fun (_, n) => n == 0 with
    | some (partition, _) => .error (.zeroQuota partition)
    | none => .ok ⟨strategy, settings⟩

theorem create_eq_ok_iff {strategy : Strategy} {settings : ExecutorSettings} {x : Executor} :
    create strategy settings = .ok x ↔
      strategy.validate = .ok () ∧ (∀ q ∈ settings.partitionQuotas, q.2 ≠ 0) ∧
        x = ⟨strategy, settings⟩ := by
  unfold create
  cases hv : strategy.validate with
  | error e => simp
  | ok u =>
    cases hf : settings.partitionQuotas.find? fun q => q.2 == 0 with
    | some q =>
      have hq := List.find?_some hf
      have hm := List.mem_of_find?_eq_some hf
      constructor
      · intro h
        simp at h
      · rintro ⟨_, h, _⟩
        exact absurd (by simpa using hq) (h q hm)
    | none =>
      simp only [List.find?_eq_none, beq_iff_eq] at hf
      simp only [Except.ok.injEq, true_and]
      exact ⟨fun h => ⟨fun q hq => hf q hq, h.symm⟩, fun h => h.2.symm⟩

/-- The permits of every pool. -/
def poolSize (x : Executor) : Nat := min x.strategy.maxRequests maxPool

/-- The pool of a partition: its own one when batches are routed, else the common one. -/
def poolOf (x : Executor) (partition : String) : Option String :=
  if x.strategy.routed then some partition else none

/-- The quota of a partition. -/
def quotaOf (x : Executor) (partition : String) : Option Quota :=
  (x.settings.partitionQuotas.lookup partition).map Quota.perMinute

/-- The batches of some agents, as lists of their places. -/
def batches (x : Executor) (agents : List Agent) : List (List Nat) :=
  x.strategy.plan (agents.map (·.partition))

end Executor

/-! ### Calls to a backend -/

/-- What a backend is asked. -/
structure Request where
  agentId : String
  profile : String
  prompt : String
  context : Members Float
deriving Inhabited

/-- What a backend replies. -/
inductive Reply where
  | answer (r : InferenceResponse)
  | error (e : InferenceError)
  /-- The backend breaks down. -/
  | panic (message : String)
deriving Inhabited

/-- What a backend replies and after how many milliseconds. -/
structure Response where
  latency : Nat
  reply : Reply
deriving Inhabited

/-- How a call ends. -/
inductive Ending where
  | replied (r : Reply)
  | timedOut
  | cancelled
deriving Inhabited

/-- A time in milliseconds as a timestamp. -/
def Timestamp.ofMillis (n : Nat) : Timestamp := ⟨(n / 1000 : Nat), n % 1000 * 1000000⟩

namespace Executor

/-- How long a call takes, and how it ends, under the timeout. -/
def curtail (x : Executor) (r : Response) : Nat × Ending :=
  let limit := x.settings.agentTimeout.ceilMillis
  if r.latency ≤ limit then (r.latency, .replied r.reply) else (limit, .timedOut)

/-- The failure of an agent that used nothing. -/
def failureOf (agent : Agent) (error : String) (kind : FailureKind) (now : Nat) (metrics : Metrics) :
    AgentResult Float :=
  .failure agent.id agent.specialization agent.partition error kind (.ofMillis now) metrics

/-- The result of an agent that is disabled. -/
def disabledResult (agent : Agent) (now : Nat) : AgentResult Float :=
  failureOf agent "Agent is disabled" .agentDisabled now .none

/-- The result of an agent whose prompt cannot be built. -/
def promptlessResult (agent : Agent) (now : Nat) : AgentResult Float :=
  failureOf agent "Prompt builder panicked" .panicked now .none

/-- The result of an agent whose call ended; `serial` numbers the call among all. -/
def resultOf (x : Executor) (agent : Agent) (serial startedAt now : Nat) (ending : Ending) :
    AgentResult Float :=
  let metrics : Metrics := ⟨now - startedAt, none, none⟩
  match ending with
  | .replied (.answer r) =>
    .success agent.id agent.specialization agent.partition r.result
      (r.confidence.getD x.settings.defaultConfidence) (.ofMillis now)
      { metrics with tokens := r.usage.map (·.tokens), cost := r.usage.map (·.cost) }
  | .replied (.error e) => failureOf agent e.message e.kind now metrics
  | .replied (.panic message) =>
    failureOf agent
      ("Agent task aborted: task " ++ String.ofList (Decimal.natChars serial) ++
        " panicked with message " ++ Text.quoted message) .panicked now .none
  | .timedOut =>
    let e := InferenceError.timeout x.settings.agentTimeout
    failureOf agent e.message e.kind now metrics
  | .cancelled =>
    failureOf agent InferenceError.cancelled.message InferenceError.cancelled.kind now metrics

end Executor

end AgentSwarm
