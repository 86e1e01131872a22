/-
**Strategies.**

A strategy bounds how many agents are asked at once and says how long to pause between batches.
Four strategies are known by name.

Main definitions:

* `AgentSwarm.Strategy` — a named bound;
* `AgentSwarm.Strategy.catalog`, `AgentSwarm.Strategy.find` — the known strategies, and the one of
  a name;
* `AgentSwarm.Strategy.validate` — whether a strategy can be used.

Main results:

* `AgentSwarm.Strategy.find_name` — every known strategy is found under its name;
* `AgentSwarm.Strategy.ofDatum_toDatum` — the written form loses nothing.
-/

import AgentSwarm.SwarmError
import AgentSwarm.Text.Blank
import AgentSwarm.Form.Basic

set_option relaxedAutoImplicit false
set_option autoImplicit false

namespace AgentSwarm

/-- How many agents are asked at once, and how long to pause between batches. -/
structure Strategy where
  name : String
  /-- The most calls in flight, per partition when batches are routed. -/
  maxRequests : Nat
  /-- The pause between one batch and the next. -/
  pause : Duration
  /-- Whether every partition has a bound of its own. -/
  routed : Bool
  description : String
deriving DecidableEq, Repr, Inhabited

namespace Strategy

/-! ### Known strategies -/

/-- All agents at once, ten calls in flight. -/
def parallel : Strategy :=
  ⟨"parallel", 10, .zero, false, "Invoke every agent at once, up to 10 in flight"⟩

/-- Small batches with a pause between them; the strategy of a swarm that names none. -/
def batched : Strategy :=
  ⟨"batched", 3, .ofSeconds 20, false,
    "Batches of 3 with a 20s pause to stay under per-minute quotas"⟩

/-- Small batches for every partition. -/
def crossPartition : Strategy :=
  ⟨"cross_partition", 3, .ofSeconds 20, true,
    "Batches of 3 per partition; partitions have independent quotas"⟩

/-- No bound at all. -/
def provisioned : Strategy :=
  ⟨"provisioned", Width.size.max, .zero, false,
    "Provisioned throughput with no request ceiling"⟩

/-- The known strategies. -/
def catalog : List Strategy := [parallel, batched, crossPartition, provisioned]

/-- The known strategy of a name, whatever its case, its hyphens and the blanks around it. -/
def find (name : String) : Except SwarmError Strategy :=
  match catalog.find? fun s => s.name = Text.normalizedSnake name with
  | some s => .ok s
  | none => .error (.unknownStrategy name)

theorem find_name {s : Strategy} (h : s ∈ catalog) : find s.name = .ok s := by
  simp only [catalog, List.mem_cons, List.not_mem_nil, or_false] at h
  rcases h with rfl | rfl | rfl | rfl <;> rfl

/-! ### Validity -/

/-- A strategy needs a name and must let at least one call through. -/
def validate (s : Strategy) : Except SwarmError Unit :=
  if Text.isAllBlank s.name then .error (.invalidStrategy s.name .emptyName)
  else if s.maxRequests = 0 then .error (.invalidStrategy s.name .noRequests)
  else .ok ()

/-! ### The written form -/

/-- The written form of a strategy. -/
def form : Form :=
  .record "ExecutionStrategy" [("name", .required, .text),
    ("max_parallel_requests", .required, .whole .size),
    ("delay_between_batches", .required, .span), ("use_partition_routing", .required, .flag),
    ("description", .required, .text)]

/-- A strategy as it is written. -/
def toDatum (s : Strategy) : Datum :=
  .record [.text s.name, .whole s.maxRequests, .span s.pause, .flag s.routed,
    .text s.description]

/-- The strategy that was written. -/
def ofDatum? : Datum → Option Strategy
  | .record [.text name, .whole n, .span pause, .flag routed, .text description] =>
    some ⟨name, n, pause, routed, description⟩
  | _ => none

theorem ofDatum_toDatum (s : Strategy) : ofDatum? s.toDatum = some s := rfl

end Strategy

end AgentSwarm
