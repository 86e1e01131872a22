/-
**Finding a manifest.**

A manifest is looked for in four places, and the first one that is there holds: the path that a
variable names, the working directory, the home directory, the system.  An explicit path must be
there.  Without any manifest the standard one of the host holds.  The environment overrides what was
found.

Main definitions:

* `AgentSwarm.Files` — the texts of files by their paths;
* `AgentSwarm.ManifestPlace`, `AgentSwarm.Manifest.discover` — where a manifest is found;
* `AgentSwarm.LoadError` — why there is no manifest;
* `AgentSwarm.Manifest.load` — the manifest that holds.

Main results:

* `AgentSwarm.Manifest.discover_exists` — a discovered path is there.
-/

import AgentSwarm.Manifest.Environment
import AgentSwarm.Manifest.Yaml
import AgentSwarm.Text.Quoted

set_option relaxedAutoImplicit false
set_option autoImplicit false

namespace AgentSwarm

/-- The texts of files by their paths. -/
abbrev Files := String → Option String

/-! ### Places -/

/-- Where a manifest may be. -/
inductive ManifestPlace where
  /-- The path that a variable names. -/
  | variable
  | workingDirectory
  | homeDirectory
  | system
deriving DecidableEq, Repr

/-- The places with their paths in the order in which they are tried. -/
def Environment.manifestPlaces (env : Environment) : List (ManifestPlace × String) :=
  let named := (env "OPTISWARM_CONFIG_PATH").map fun path => (.variable, path)
  let home := (env "HOME").map fun path => (.homeDirectory, path ++ "/.optiswarm/config.yaml")
  named.toList ++ [(.workingDirectory, "./optiswarm.yaml")] ++ home.toList ++
    [(.system, "/etc/optiswarm/config.yaml")]

/-- Why there is no manifest. -/
inductive LoadError where
  /-- The explicit path is not there. -/
  | missing (path : String)
  /-- The text is no manifest. -/
  | misfit (path : String) (m : YamlMisfit)

/-- The wording of a load error. -/
def LoadError.message : LoadError → String
  | .missing path =>
    "Failed to load config at " ++ Text.quoted path ++ ": No such file or directory (os error 2)"
  | .misfit path m => "Failed to load config at " ++ Text.quoted path ++ ": " ++ m.message

namespace Manifest

/-- The first place that has a manifest, with its path. -/
def discover (env : Environment) (files : Files) : Option (ManifestPlace × String) :=
  env.manifestPlaces.find? fun (_, path) => (files path).isSome

theorem discover_exists {env : Environment} {files : Files} {place : ManifestPlace} {path : String}
    (h : discover env files = some (place, path)) : (files path).isSome = true := by
  unfold discover at h
  simpa using List.find?_some h

/-- The manifest of a file. -/
def ofFile (files : Files) (path : String) : Except LoadError Manifest :=
  match files path with
  | none => .error (.missing path)
  | some text => (ofYaml text).mapError (.misfit path)

/-- The manifest that holds: of the explicit path, of a discovered one, or the standard one. -/
def load (host : String) (env : Environment) (files : Files) (explicit : Option String) :
    Except LoadError Manifest :=
  let found :=
    match explicit, discover env files with
    | some path, _ | none, some (_, path) => ofFile files path
    | none, none => .ok (standard host)
  found.map (override env)

end Manifest

end AgentSwarm
