/-
**Manifests in YAML.**

Main definitions:

* `AgentSwarm.Manifest.ofYaml` — the manifest of a text;
* `AgentSwarm.Manifest.toYaml` — the text of a manifest.
-/

import AgentSwarm.Form.OfYaml
import AgentSwarm.Form.Writer
import AgentSwarm.Manifest.Basic
import AgentSwarm.Yaml.Writer

set_option relaxedAutoImplicit false
set_option autoImplicit false

namespace AgentSwarm.Manifest

/-- The manifest of a text. -/
def ofYaml (text : String) : Except YamlMisfit Manifest := do
  let d ← form.ofYaml text
  match ofDatum? d with
  | some m => .ok m
  | none => .error .broken

/-- A manifest as a value. -/
def toTree (m : Manifest) : Json := form.toTree m.toDatum

/-- The text of a manifest. -/
def toYaml (m : Manifest) : String := Yaml.write m.toTree

end AgentSwarm.Manifest
