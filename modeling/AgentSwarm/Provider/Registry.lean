/-
**The registry of providers.**

Agents ask for a model by an alias.  The registry knows which provider serves it, tries again after
errors that may go away, with pauses that double, and at last asks the fallback provider.  A provider
that is registered again under its name replaces the earlier one, and so does an alias.

Main definitions:

* `AgentSwarm.Registry`, `AgentSwarm.Registry.register` — providers by name and models by alias;
* `AgentSwarm.Registry.course` — what is done for a request for an alias.

Main results:

* `AgentSwarm.Registry.lookup_routes_register` — an alias is served by the last provider that
  registered it.
-/

import AgentSwarm.Manifest.Basic
import AgentSwarm.Provider.Course

set_option relaxedAutoImplicit false
set_option autoImplicit false

namespace AgentSwarm

/-- Which provider serves an alias, and with which model. -/
structure Route where
  provider : String
  model : ModelEntry
deriving Repr, Inhabited

/-- Providers by name and models by alias; `P` is how providers are reached. -/
structure Registry (P : Type) where
  /-- Ascending by name. -/
  providers : List (String × P)
  /-- Ascending by alias. -/
  routes : List (String × Route)
  /-- The name of the provider that is asked last. -/
  fallback : Option String
  maxRetries : Nat
  retryDelay : Duration
deriving Inhabited

namespace Registry

variable {P : Type}

/-! ### Registration -/

/-- A registry without providers. -/
def empty (maxRetries : Nat) (retryDelay : Duration) : Registry P :=
  ⟨[], [], none, maxRetries, retryDelay⟩

/-- The routes with the models of a provider added. -/
def addRoutes (name : String) (models : List ModelEntry) (routes : List (String × Route)) :
    List (String × Route) :=
  models.foldl (fun routes m => insertMember m.aliasName ⟨name, m⟩ routes) routes

/-- The registry with one more provider. -/
def register (r : Registry P) (name : String) (provider : P) (models : List ModelEntry) :
    Registry P :=
  { r with
    providers := insertMember name provider r.providers
    routes := addRoutes name models r.routes }

/-- The model of an alias and the provider that serves it. -/
def route? (r : Registry P) (aliasName : String) : Option Route := r.routes.lookup aliasName

/-- What a thousand tokens of an alias cost. -/
def costPer1k? (r : Registry P) (aliasName : String) : Option Float :=
  (r.route? aliasName).map (·.model.costPer1k)

/-- The aliases that are served, ascending. -/
def aliases (r : Registry P) : List String := r.routes.map Prod.fst

theorem lookup_addRoutes (name : String) (models : List ModelEntry)
    (routes : List (String × Route)) (aliasName : String) :
    (addRoutes name models routes).lookup aliasName =
      match models.reverse.find? (fun m => m.aliasName == aliasName) with
      | some m => some ⟨name, m⟩
      | none => routes.lookup aliasName := by
  induction models generalizing routes with
  | nil => rfl
  | cons m rest ih =>
    have hfold : addRoutes name (m :: rest) routes =
        addRoutes name rest (insertMember m.aliasName ⟨name, m⟩ routes) := rfl
    rw [hfold, ih, List.reverse_cons, List.find?_append]
    cases rest.reverse.find? fun m => m.aliasName == aliasName with
    | some n => rfl
    | none =>
      rw [lookup_insertMember]
      by_cases h : aliasName = m.aliasName
      · simp [h]
      · simp [h, Ne.symm h]

theorem lookup_routes_register (r : Registry P) (name : String) (provider : P)
    (models : List ModelEntry) (aliasName : String) :
    (r.register name provider models).route? aliasName =
      match models.reverse.find? (fun m => m.aliasName == aliasName) with
      | some m => some ⟨name, m⟩
      | none => r.route? aliasName :=
  lookup_addRoutes name models r.routes aliasName

/-! ### Requests -/

/-- The pause after try `i`. -/
def pause (r : Registry P) (i : Nat) : Duration := r.retryDelay.times (min (Nat.pow 2 i) (UInt32.size - 1))

/-- The provider that is asked when all tries at another one have failed. -/
def fallbackFor (r : Registry P) (name : String) : Option P :=
  match r.fallback with
  | some other => if other = name then none else r.providers.lookup other
  | none => none

/-- What is done when all tries have failed: the fallback is asked once. -/
def afterTries (r : Registry P) (name : String) (a : ProviderAnswer) : Course P :=
  match r.fallbackFor name with
  | some p => .ask p .done
  | none => .done a

/-- What is done for a request for an alias. -/
def course (r : Registry P) (aliasName : String) : Course P :=
  match r.route? aliasName with
  | none => .done (.error (.modelNotFound ("Profile '" ++ aliasName ++ "' not found")))
  | some route =>
    match r.providers.lookup route.provider with
    | none => .done (.error (.provider ("Provider '" ++ route.provider ++ "' not found")))
    | some p => .tries p r.pause (r.afterTries route.provider) (r.maxRetries - 1) 0

end Registry

end AgentSwarm
