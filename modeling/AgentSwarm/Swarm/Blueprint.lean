/-
**Building swarms.**

A blueprint collects what a swarm is made of.  The agents of its variant come before those that are
named one by one; the prompts of the variant are used unless others are given.

Main definitions:

* `AgentSwarm.AgentSpec` — an agent to be registered;
* `AgentSwarm.Blueprint`, `AgentSwarm.Blueprint.ofSettings` — what a swarm is made of, also from the
  settings of a manifest;
* `AgentSwarm.Blueprint.build` — the swarm.
-/

import AgentSwarm.Manifest.Settings
import AgentSwarm.Swarm.Basic
import AgentSwarm.Variant

set_option relaxedAutoImplicit false
set_option autoImplicit false

namespace AgentSwarm

/-- An agent to be registered. -/
structure AgentSpec where
  id : String
  specialization : String
  role : Role
  partition : String
  profile : String
deriving DecidableEq, Repr, Inhabited

/-- What a swarm is made of. -/
structure Blueprint where
  name : String
  strategy : Strategy
  settings : ExecutorSettings
  voteKey : VoteKey Float
  /-- The prompts, if others than the usual ones. -/
  prompts : Option PromptBuilder
  variant : Option Variant
  /-- The profile of the variant's agents. -/
  variantProfile : String
  agents : List AgentSpec
  defaultAlgorithm : Algorithm
  historyWindow : Nat
  bus : Option EventBus
deriving Inhabited

/-- The prompts of a style. -/
def PromptStyle.builder (style : PromptStyle) : PromptBuilder :=
  fun agent task => some (style.prompt agent task)

/-- The prompts of a variant. -/
def Variant.builder (v : Variant) : PromptBuilder := fun agent task => some (v.prompt agent task)

namespace Blueprint

/-- A swarm of a name without agents. -/
def named (name : String) : Blueprint :=
  { name, strategy := .batched, settings := .standard, voteKey := .compact, prompts := none
    variant := none, variantProfile := defaultProfile, agents := []
    defaultAlgorithm := .confidenceWeighted, historyWindow := Swarm.defaultWindow, bus := none }

/-- An agent from the settings of a manifest. -/
def specOf (e : RosterEntry) : Except SwarmError AgentSpec := do
  return ⟨e.id, e.specialization, ← Role.parse e.role, e.partition, e.profile⟩

/-- The blueprint of settings; names are looked up in the order strategy, algorithm, variant,
roles. -/
def ofSettings (name : String) (s : Settings) : Except SwarmError Blueprint := do
  let strategy ← Strategy.find s.strategy
  let defaultAlgorithm ← Algorithm.parse s.defaultAlgorithm
  let variant ←
    match s.variant with
    | some v => (Variant.parse v).map some
    | none => .ok none
  let agents ← s.agents.mapM specOf
  return { named name with
    strategy, defaultAlgorithm, variant, agents, historyWindow := s.historyWindow
    settings := { ExecutorSettings.standard with
      agentTimeout := s.agentTimeout, partitionQuotas := s.partitionQuotas } }

/-- The agents of the variant. -/
def variantAgents (b : Blueprint) : List AgentSpec :=
  match b.variant with
  | some v => v.seats.map fun s => ⟨s.id, s.specialization, s.role, s.partition, b.variantProfile⟩
  | none => []

/-- The prompts that are used. -/
def chosenPrompts (b : Blueprint) : PromptBuilder :=
  match b.prompts, b.variant with
  | some prompts, _ => prompts
  | none, some v => v.builder
  | none, none => PromptStyle.standard.builder

/-- Registers an agent. -/
def register (s : Swarm) (a : AgentSpec) : Except SwarmError Swarm :=
  s.addAgent a.id a.specialization a.role a.partition a.profile

/-- The swarm of a blueprint, with an identifier of its own. -/
def build (b : Blueprint) (id : List Char) : Except SwarmError Swarm := do
  let executor ← Executor.create b.strategy b.settings
  let empty : Swarm :=
    { id, name := b.name, roster := .empty, world := .idle executor, voteKey := b.voteKey
      prompts := b.chosenPrompts, defaultAlgorithm := b.defaultAlgorithm
      historyWindow := max b.historyWindow 1, bus := b.bus, openTasks := [], reports := []
      totalTasks := 0, totalMillis := 0 }
  (b.variantAgents ++ b.agents).foldlM register empty

end Blueprint

end AgentSwarm
