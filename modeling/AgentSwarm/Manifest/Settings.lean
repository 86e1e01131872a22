/-
**Settings of a swarm.**

Main definitions:

* `AgentSwarm.RosterEntry` — an agent that settings name;
* `AgentSwarm.Settings` — strategy, algorithm, timeout, history window, quotas and agents.

Main results:

* `AgentSwarm.RosterEntry.ofDatum_toDatum` — the written form loses nothing.
-/

import AgentSwarm.Agent.Basic
import AgentSwarm.Form.View

set_option relaxedAutoImplicit false
set_option autoImplicit false

namespace AgentSwarm

/-! ### Agents -/

/-- An agent that settings name. -/
structure RosterEntry where
  id : String
  specialization : String
  role : String
  partition : String
  profile : String
deriving DecidableEq, Repr, Inhabited

namespace RosterEntry

/-- The written form of an entry. -/
def form : Form :=
  .record "RosterEntry" [("id", .required, .text), ("specialization", .required, .text),
    ("role", .required, .text), ("partition", .required, .text),
    ("profile", .default (.text defaultProfile), .text)]

/-- An entry as it is written. -/
def toDatum (e : RosterEntry) : Datum :=
  .record [.text e.id, .text e.specialization, .text e.role, .text e.partition, .text e.profile]

/-- The entry that was written. -/
def ofDatum? : Datum → Option RosterEntry
  | .record [.text id, .text specialization, .text role, .text partition, .text profile] =>
    some ⟨id, specialization, role, partition, profile⟩
  | _ => none

theorem ofDatum_toDatum (e : RosterEntry) : ofDatum? e.toDatum = some e := rfl

end RosterEntry

/-! ### Settings -/

/-- How a swarm is put together and run. -/
structure Settings where
  variant : Option String
  strategy : String
  defaultAlgorithm : String
  /-- The most time for one call. -/
  agentTimeout : Duration
  historyWindow : Nat
  /-- Calls per minute for partitions, ascending by partition. -/
  partitionQuotas : List (String × Nat)
  agents : List RosterEntry
deriving DecidableEq, Repr, Inhabited

namespace Settings

/-- The settings of a manifest that gives none. -/
def standard : Settings :=
  { variant := none, strategy := "batched", defaultAlgorithm := "confidence_weighted"
    agentTimeout := .ofSeconds 30, historyWindow := 100, partitionQuotas := [], agents := [] }

/-- The written form of settings. -/
def form : Form :=
  .record "SwarmSettings" [("variant", .hiddenDefault, .optional .text),
    ("strategy", .default (.text standard.strategy), .text),
    ("default_algorithm", .default (.text standard.defaultAlgorithm), .text),
    ("agent_timeout", .default (.span standard.agentTimeout), .span),
    ("history_window", .default (.whole standard.historyWindow), .whole .size),
    ("partition_quotas", .default (.table []), .table (.whole .word32)),
    ("agents", .default (.list []), .list RosterEntry.form)]

/-- Settings as they are written. -/
def toDatum (s : Settings) : Datum :=
  .record [optionalDatum .text s.variant, .text s.strategy, .text s.defaultAlgorithm,
    .span s.agentTimeout, .whole s.historyWindow,
    .table (s.partitionQuotas.map fun (p, n) => (p, .whole n)),
    .list (s.agents.map RosterEntry.toDatum)]

/-- The settings that were written. -/
def ofDatum? : Datum → Option Settings
  | .record [variant, .text strategy, .text algorithm, .span timeout, .whole window, quotas,
      agents] => do
    return ⟨← variant.optional? Datum.text?, strategy, algorithm, timeout, window,
      ← quotas.table? Datum.whole?, ← agents.list? RosterEntry.ofDatum?⟩
  | _ => none

end Settings

end AgentSwarm
