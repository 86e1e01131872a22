/-
**The environment of a manifest.**

Two variables override the settings of a manifest: one the strategy, the other the seconds that a
call may take.  A value that is blank, or no positive number of 64 bits, is passed over.

Main definitions:

* `AgentSwarm.Environment` — the variables of the environment;
* `AgentSwarm.Environment.strategy?`, `AgentSwarm.Environment.timeout?` — what is overridden;
* `AgentSwarm.Manifest.override` — the manifest in an environment.

Main results:

* `AgentSwarm.Manifest.override_override` — overriding twice is overriding once.
-/

import AgentSwarm.Manifest.Basic
import AgentSwarm.Text.Blank
import AgentSwarm.Text.Digits

set_option relaxedAutoImplicit false
set_option autoImplicit false

namespace AgentSwarm

/-- The variables of the environment. -/
abbrev Environment := String → Option String

/-! ### Overriding -/

namespace Environment

/-- The strategy that the environment asks for. -/
def strategy? (env : Environment) : Option String :=
  ((env "OPTISWARM_STRATEGY").map Text.trim).filter (· != "")

/-- The timeout that the environment asks for. -/
def timeout? (env : Environment) : Option Duration :=
  (((env "OPTISWARM_AGENT_TIMEOUT_SECS").bind fun s => Text.word64? (Text.trim s)).filter
    (0 < ·)).map Duration.ofSeconds

end Environment

namespace Manifest

/-- The manifest in an environment. -/
def override (env : Environment) (m : Manifest) : Manifest :=
  { m with settings := { m.settings with
      strategy := env.strategy?.getD m.settings.strategy
      agentTimeout := env.timeout?.getD m.settings.agentTimeout } }

theorem override_override (env : Environment) (m : Manifest) :
    (m.override env).override env = m.override env := by
  unfold override
  cases env.strategy? <;> cases env.timeout? <;> rfl

end Manifest

end AgentSwarm
