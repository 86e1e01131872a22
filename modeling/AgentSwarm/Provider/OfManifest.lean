/-
**The providers of a manifest.**

The registry of a manifest has its enabled providers in order, as far as they can be reached: the
type must be known, there must be a model, and a key that is found in the environment must be there.

Main definitions:

* `AgentSwarm.ProviderEntry.connection?` — the connection of a provider;
* `AgentSwarm.Registry.ofManifest` — the registry of a manifest.
-/

import AgentSwarm.Manifest.Environment
import AgentSwarm.Provider.Connection
import AgentSwarm.Provider.Registry

set_option relaxedAutoImplicit false
set_option autoImplicit false

namespace AgentSwarm

namespace ProviderEntry

/-- The key of a provider: written out, named after `env:`, or empty; none when the environment
lacks it. -/
def key? (env : Environment) (p : ProviderEntry) : Option String :=
  match p.apiKey with
  | none => some ""
  | some key =>
    match Text.stripPrefix? ['e', 'n', 'v', ':'] key.toList with
    | some name => env (String.ofList name)
    | none => some key

/-- The connection of a provider; it asks for the first of the models. -/
def connection? (env : Environment) (p : ProviderEntry) : Option Connection := do
  let key ← p.key? env
  let model ← p.models.head?
  let vendor ← Vendor.ofType? p.kind
  return .create vendor p.endpoint key model.model

end ProviderEntry

namespace Registry

/-- The registry with a provider of a manifest, if it is enabled and can be reached. -/
def addEntry (env : Environment) (r : Registry Connection) (p : ProviderEntry) :
    Registry Connection :=
  if !p.enabled then r
  else
    match p.connection? env with
    | some c => r.register p.name c p.models
    | none => r

/-- The registry of a manifest. -/
def ofManifest (env : Environment) (m : Manifest) : Registry Connection :=
  let empty : Registry Connection :=
    .empty m.selection.maxRetries (.ofMillis m.selection.retryDelayMillis)
  { m.providers.foldl (addEntry env) empty with fallback := m.selection.fallbackProvider }

end Registry

end AgentSwarm
