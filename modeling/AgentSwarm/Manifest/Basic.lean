/-
**Manifests.**

A manifest describes the providers of completions with the models they serve, how often a request
is repeated, the swarm itself and the log.

Main definitions:

* `AgentSwarm.ModelEntry`, `AgentSwarm.ProviderEntry` — a model under an alias, and a provider;
* `AgentSwarm.Selection` — repetition and fallback of requests;
* `AgentSwarm.LogSettings` — level and format of the log;
* `AgentSwarm.Manifest` — all of it, with its written form.
-/

import AgentSwarm.Manifest.Settings

set_option relaxedAutoImplicit false
set_option autoImplicit false

namespace AgentSwarm

/-! ### Providers -/

/-- A model under the alias that agents ask for. -/
structure ModelEntry where
  aliasName : String
  model : String
  capabilities : List String
  contextWindow : Nat
  costPer1k : Float
deriving Repr, Inhabited

namespace ModelEntry

/-- The written form of a model. -/
def form : Form :=
  .record "ModelConfig" [("alias", .required, .text), ("model", .required, .text),
    ("capabilities", .default (.list []), .list .text),
    ("context_window", .default (.whole 8192), .whole .word32),
    ("cost_per_1k_tokens", .default (.real 0.0), .real)]

/-- A model as it is written. -/
def toDatum (m : ModelEntry) : Datum :=
  .record [.text m.aliasName, .text m.model, .list (m.capabilities.map .text),
    .whole m.contextWindow, .real m.costPer1k]

/-- The model that was written. -/
def ofDatum? : Datum → Option ModelEntry
  | .record [.text aliasName, .text model, capabilities, .whole window, .real cost] => do
    return ⟨aliasName, model, ← capabilities.list? Datum.text?, window, cost⟩
  | _ => none

end ModelEntry

/-- A provider of completions. -/
structure ProviderEntry where
  name : String
  /-- Which protocol the provider speaks. -/
  kind : String
  endpoint : String
  /-- The key itself, or where in the environment it is found. -/
  apiKey : Option String
  enabled : Bool
  models : List ModelEntry
deriving Repr, Inhabited

namespace ProviderEntry

/-- The written form of a provider. -/
def form : Form :=
  .record "LLMProviderConfig" [("name", .required, .text), ("type", .required, .text),
    ("endpoint", .required, .text), ("api_key", .hidden, .optional .text),
    ("enabled", .default (.flag true), .flag), ("models", .required, .list ModelEntry.form)]

/-- A provider as it is written. -/
def toDatum (p : ProviderEntry) : Datum :=
  .record [.text p.name, .text p.kind, .text p.endpoint, optionalDatum .text p.apiKey,
    .flag p.enabled, .list (p.models.map ModelEntry.toDatum)]

/-- The provider that was written. -/
def ofDatum? : Datum → Option ProviderEntry
  | .record [.text name, .text kind, .text endpoint, key, .flag enabled, models] => do
    return ⟨name, kind, endpoint, ← key.optional? Datum.text?, enabled,
      ← models.list? ModelEntry.ofDatum?⟩
  | _ => none

end ProviderEntry

/-- How often a request is repeated, and who is asked last. -/
structure Selection where
  fallbackProvider : Option String
  maxRetries : Nat
  retryDelayMillis : Nat
deriving DecidableEq, Repr, Inhabited

namespace Selection

/-- The selection of a manifest that gives none. -/
def standard : Selection := ⟨none, 3, 500⟩

/-- The written form of a selection. -/
def form : Form :=
  .record "LLMSelection" [("fallback_provider", .hidden, .optional .text),
    ("max_retries", .default (.whole standard.maxRetries), .whole .word32),
    ("retry_delay_ms", .default (.whole standard.retryDelayMillis), .whole .word64)]

/-- A selection as it is written. -/
def toDatum (s : Selection) : Datum :=
  .record [optionalDatum .text s.fallbackProvider, .whole s.maxRetries, .whole s.retryDelayMillis]

/-- The selection that was written. -/
def ofDatum? : Datum → Option Selection
  | .record [fallback, .whole retries, .whole delay] => do
    return ⟨← fallback.optional? Datum.text?, retries, delay⟩
  | _ => none

end Selection

/-! ### The log -/

/-- The format of the log. -/
inductive LogFormat where
  | json | text
deriving DecidableEq, Repr, Inhabited

/-- The name of a format. -/
def LogFormat.name : LogFormat → String
  | .json => "json"
  | .text => "text"

/-- Level and format of the log. -/
structure LogSettings where
  level : String
  format : LogFormat
deriving DecidableEq, Repr, Inhabited

namespace LogSettings

/-- The log of a manifest that says nothing about it. -/
def standard : LogSettings := ⟨"info", .text⟩

/-- The written form of log settings. -/
def form : Form :=
  .record "LoggingConfig" [("level", .default (.text standard.level), .text),
    ("format", .default (.word standard.format.name), .word ["json", "text"])]

/-- Log settings as they are written. -/
def toDatum (l : LogSettings) : Datum := .record [.text l.level, .word l.format.name]

/-- The log settings that were written. -/
def ofDatum? : Datum → Option LogSettings
  | .record [.text level, .word format] =>
    some ⟨level, if format = LogFormat.json.name then .json else .text⟩
  | _ => none

theorem ofDatum_toDatum (l : LogSettings) : ofDatum? l.toDatum = some l := by
  obtain ⟨level, format⟩ := l
  cases format <;> rfl

end LogSettings

/-! ### Manifests -/

/-- A description of providers, of a swarm and of its log. -/
structure Manifest where
  apiVersion : String
  kind : String
  name : String
  version : Option String
  labels : Option (List (String × String))
  providers : List ProviderEntry
  selection : Selection
  settings : Settings
  /-- What is said about the log, if the log is mentioned at all. -/
  observability : Option (Option LogSettings)
deriving Repr, Inhabited

namespace Manifest

/-- The only version of manifests. -/
def supportedVersion : String := "optiswarm.io/v1"

/-- The only kind of manifests. -/
def supportedKind : String := "SwarmConfig"

/-- The manifest of a host for which none is written. -/
def standard (host : String) : Manifest :=
  { apiVersion := supportedVersion, kind := supportedKind, name := host, version := some "1.0.0"
    labels := none, providers := [], selection := .standard, settings := .standard
    observability := none }

/-- The log settings that hold. -/
def log (m : Manifest) : LogSettings := (m.observability.bind id).getD .standard

/-! ### The written form -/

/-- The written form of the name and the labels. -/
def metadataForm : Form :=
  .record "ManifestMetadata" [("name", .required, .text), ("version", .hidden, .optional .text),
    ("labels", .hidden, .optional (.table .text))]

/-- The written form of what the manifest is about. -/
def specForm : Form :=
  .record "SwarmConfigSpec" [("llm_providers", .default (.list []), .list ProviderEntry.form),
    ("llm_selection", .default Selection.standard.toDatum, Selection.form),
    ("swarm", .default Settings.standard.toDatum, Settings.form),
    ("observability", .hidden, .optional (.record "ObservabilityConfig"
      [("logging", .hidden, .optional LogSettings.form)]))]

/-- The written form of a manifest. -/
def form : Form :=
  .record "SwarmConfigManifest" [("apiVersion", .required, .text), ("kind", .required, .text),
    ("metadata", .required, metadataForm), ("spec", .required, specForm)]

/-- A manifest as it is written. -/
def toDatum (m : Manifest) : Datum :=
  .record [.text m.apiVersion, .text m.kind,
    .record [.text m.name, optionalDatum .text m.version,
      optionalDatum (fun ls => .table (ls.map fun (k, v) => (k, .text v))) m.labels],
    .record [.list (m.providers.map ProviderEntry.toDatum), m.selection.toDatum,
      m.settings.toDatum,
      optionalDatum (fun l => .record [optionalDatum LogSettings.toDatum l]) m.observability]]

/-- What is said about the log. -/
def observabilityOf? : Datum → Option (Option LogSettings)
  | .record [log] => log.optional? LogSettings.ofDatum?
  | _ => none

/-- The manifest that was written. -/
def ofDatum? : Datum → Option Manifest
  | .record [.text apiVersion, .text kind, .record [.text name, version, labels],
      .record [providers, selection, settings, observability]] => do
    return { apiVersion, kind, name
             version := ← version.optional? Datum.text?
             labels := ← labels.optional? (Datum.table? Datum.text?)
             providers := ← providers.list? ProviderEntry.ofDatum?
             selection := ← Selection.ofDatum? selection
             settings := ← Settings.ofDatum? settings
             observability := ← observability.optional? observabilityOf? }
  | _ => none

end Manifest

end AgentSwarm
