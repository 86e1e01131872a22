/-
**Waiting for a quota.**

Callers of a quota come at any time.  One that is not admitted sleeps until the time it was told, and
wakes at the next whole millisecond; then it asks again.  Nothing is said about the order in which
those ask who come or wake at one time, nor about how late one asks that might ask already.

Main definitions:

* `AgentSwarm.QuotaQueue` — a quota with those who sleep, at one time;
* `AgentSwarm.QuotaQueue.ask` — a caller is admitted or goes to sleep;
* `AgentSwarm.QuotaQueue.Action`, `AgentSwarm.QuotaQueue.step?` — the steps, and the times at which
  callers are admitted in one.
-/

import AgentSwarm.Duration
import AgentSwarm.Quota

set_option relaxedAutoImplicit false
set_option autoImplicit false

namespace AgentSwarm

/-- A caller that sleeps, and the time in nanoseconds at which it wakes. -/
structure Sleeper where
  caller : Nat
  wakesAt : Nat
deriving DecidableEq, Repr, Inhabited

/-- A quota with those who wait for it. -/
structure QuotaQueue where
  quota : Quota
  /-- The time in nanoseconds. -/
  now : Nat
  /-- When the next request would be due; nothing before the first request. -/
  due : Option Nat
  sleeping : List Sleeper
deriving DecidableEq, Repr, Inhabited

namespace QuotaQueue

/-- A quota that nobody has used, at a time. -/
def unused (q : Quota) (now : Nat) : QuotaQueue := ⟨q, now, none, []⟩

/-- A caller asks: it is admitted, or it sleeps until it may ask again. -/
def ask (s : QuotaQueue) (caller : Nat) : QuotaQueue × List Nat :=
  match s.quota.check s.due s.now with
  | .ok due => ({ s with due := some due }, [s.now])
  | .error retry =>
    let wakesAt := (Duration.mk retry).ceilMillis * 1000000
    ({ s with sleeping := s.sleeping ++ [⟨caller, wakesAt⟩] }, [])

/-- A step of a quota. -/
inductive Action where
  /-- Time passes. -/
  | pass (time : Nat)
  /-- A caller comes and asks. -/
  | come (caller : Nat)
  /-- A caller that has slept asks again. -/
  | wake (sleeper : Sleeper)
deriving DecidableEq, Repr

/-- The quota after a step, and the times at which callers are admitted in it; none when the step is
not possible. -/
def step? (s : QuotaQueue) : Action → Option (QuotaQueue × List Nat)
  | .pass time => if s.now ≤ time then some ({ s with now := time }, []) else none
  | .come caller => some (s.ask caller)
  | .wake sleeper =>
    if sleeper ∈ s.sleeping ∧ sleeper.wakesAt ≤ s.now then
      some (({ s with sleeping := s.sleeping.erase sleeper } : QuotaQueue).ask sleeper.caller)
    else none

end QuotaQueue

end AgentSwarm
