/-
**Valid manifests.**

A manifest is valid when it has no faults.  Its faults are looked for in a fixed order: version,
kind and name, then the providers with their models, the fallback, the settings of the swarm, its
quotas and its agents.

Main definitions:

* `AgentSwarm.ManifestFault` — what can be wrong, with its wording;
* `AgentSwarm.Manifest.faults` — the faults of a manifest in order;
* `AgentSwarm.Manifest.validate` — the first of them.

Main results:

* `AgentSwarm.Manifest.validate_eq_ok_iff` — a manifest is valid exactly when it has no faults;
* `AgentSwarm.Manifest.agents_faults_eq_nil_iff` — there is no fault among the agents exactly when
  their ids are distinct and not empty.
-/

import AgentSwarm.Manifest.Basic

set_option relaxedAutoImplicit false
set_option autoImplicit false

namespace AgentSwarm

/-! ### Faults -/

/-- What can be wrong with a manifest. -/
inductive ManifestFault where
  | wrongVersion (version : String)
  | wrongKind (kind : String)
  | noName
  | noProviderName
  | noEndpoint (provider : String)
  | noModels (provider : String)
  | noAlias (provider : String)
  | noModelName (aliasName : String)
  | unknownFallback (provider : String)
  | noStrategy
  | noHistory
  | noTimeout
  | noQuota (partition : String)
  | noAgentId
  | repeatedAgent (id : String)
deriving DecidableEq, Repr

/-- The wording of a fault. -/
def ManifestFault.message : ManifestFault → String
  | .wrongVersion v =>
    "Invalid apiVersion: \x27" ++ v ++ "\x27. Must be \x27" ++ Manifest.supportedVersion ++ "\x27"
  | .wrongKind k =>
    "Invalid kind: \x27" ++ k ++ "\x27. Must be \x27" ++ Manifest.supportedKind ++ "\x27"
  | .noName => "metadata.name cannot be empty"
  | .noProviderName => "LLM provider name cannot be empty"
  | .noEndpoint p => "LLM provider endpoint cannot be empty for: " ++ p
  | .noModels p => "LLM provider must have at least one model: " ++ p
  | .noAlias p => "Model alias cannot be empty in provider: " ++ p
  | .noModelName a => "Model identifier cannot be empty for alias: " ++ a
  | .unknownFallback p => "Fallback provider \x27" ++ p ++ "\x27 not found in llm_providers"
  | .noStrategy => "spec.swarm.strategy cannot be empty"
  | .noHistory => "spec.swarm.history_window must be at least 1"
  | .noTimeout => "spec.swarm.agent_timeout must be non-zero"
  | .noQuota p => "Quota for partition \x27" ++ p ++ "\x27 must be at least 1 request/minute"
  | .noAgentId => "Roster entry id cannot be empty"
  | .repeatedAgent id => "Duplicate roster entry id: " ++ id

/-- A fault when something is wrong. -/
def faultIf (wrong : Bool) (fault : ManifestFault) : List ManifestFault :=
  if wrong then [fault] else []

theorem faultIf_eq_nil {wrong : Bool} {fault : ManifestFault} :
    faultIf wrong fault = [] ↔ wrong = false := by
  cases wrong <;> simp [faultIf]

/-! ### Faults of the parts -/

/-- The faults of a model of a provider. -/
def ModelEntry.faults (provider : String) (m : ModelEntry) : List ManifestFault :=
  faultIf (m.aliasName == "") (.noAlias provider) ++ faultIf (m.model == "") (.noModelName m.aliasName)

/-- The faults of a provider. -/
def ProviderEntry.faults (p : ProviderEntry) : List ManifestFault :=
  faultIf (p.name == "") .noProviderName ++ faultIf (p.endpoint == "") (.noEndpoint p.name) ++
    faultIf p.models.isEmpty (.noModels p.name) ++ p.models.flatMap (ModelEntry.faults p.name)

/-- The fault of a fallback that is not among the providers. -/
def Selection.faults (providers : List ProviderEntry) (s : Selection) : List ManifestFault :=
  match s.fallbackProvider with
  | none => []
  | some name => faultIf (!providers.any (·.name == name)) (.unknownFallback name)

/-- The faults of agents behind others with the ids `seen`. -/
def RosterEntry.faults (seen : List String) : List RosterEntry → List ManifestFault
  | [] => []
  | e :: rest =>
    faultIf (e.id == "") .noAgentId ++ faultIf (seen.contains e.id) (.repeatedAgent e.id) ++
      RosterEntry.faults (e.id :: seen) rest

/-- The faults of the settings of a swarm. -/
def Settings.faults (s : Settings) : List ManifestFault :=
  faultIf (s.strategy == "") .noStrategy ++ faultIf (s.historyWindow == 0) .noHistory ++
    faultIf s.agentTimeout.isZero .noTimeout ++
    s.partitionQuotas.flatMap (fun (p, n) => faultIf (n == 0) (.noQuota p)) ++
    RosterEntry.faults [] s.agents

theorem RosterEntry.faults_eq_nil_iff (seen : List String) (entries : List RosterEntry) :
    RosterEntry.faults seen entries = [] ↔
      (∀ e ∈ entries, e.id ≠ "" ∧ e.id ∉ seen) ∧ (entries.map (·.id)).Nodup := by
  induction entries generalizing seen with
  | nil => simp [RosterEntry.faults]
  | cons e rest ih =>
    simp only [RosterEntry.faults, List.append_eq_nil_iff, faultIf_eq_nil, ih, List.map_cons,
      List.nodup_cons, List.mem_cons, List.mem_map, List.contains_eq_mem]
    grind

/-! ### Faults of a manifest -/

namespace Manifest

/-- The faults of a manifest in the order in which they are looked for. -/
def faults (m : Manifest) : List ManifestFault :=
  faultIf (m.apiVersion != supportedVersion) (.wrongVersion m.apiVersion) ++
    faultIf (m.kind != supportedKind) (.wrongKind m.kind) ++ faultIf (m.name == "") .noName ++
    m.providers.flatMap ProviderEntry.faults ++ m.selection.faults m.providers ++ m.settings.faults

/-- The first fault of a manifest, if it has one. -/
def validate (m : Manifest) : Except ManifestFault Unit :=
  match m.faults with
  | [] => .ok ()
  | fault :: _ => .error fault

theorem validate_eq_ok_iff {m : Manifest} : m.validate = .ok () ↔ m.faults = [] := by
  unfold validate
  cases m.faults <;> simp

theorem agents_faults_eq_nil_iff {m : Manifest} :
    RosterEntry.faults [] m.settings.agents = [] ↔
      (∀ e ∈ m.settings.agents, e.id ≠ "") ∧ (m.settings.agents.map (·.id)).Nodup := by
  simp [RosterEntry.faults_eq_nil_iff]

end Manifest

end AgentSwarm
