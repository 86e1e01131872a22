/-
**Quotas.**

A quota admits a number of requests per minute.  Requests are spread evenly, but a whole minute's
worth may come at once after an idle time.  The state is the time at which the next request would be
due if requests came evenly; a request is admitted when it is not too far ahead of that time.
Times are in nanoseconds.

Main definitions:

* `AgentSwarm.Quota`, `AgentSwarm.Quota.perMinute` — the distance of even requests, and how far a
  request may be ahead;
* `AgentSwarm.Quota.check` — admitting a request, or the time until which it has to wait.

Main results:

* `AgentSwarm.Quota.check_eq_ok_iff` — when a request is admitted;
* `AgentSwarm.Quota.check_at_retry` — a request that comes back when it was told to is admitted.
-/

set_option relaxedAutoImplicit false
set_option autoImplicit false

namespace AgentSwarm

/-- A number of requests per minute. -/
structure Quota where
  /-- The distance of even requests. -/
  interval : Nat
  /-- How far a request may be ahead of its time. -/
  slack : Nat
deriving DecidableEq, Repr, Inhabited

namespace Quota

/-- The quota of `n` requests per minute. -/
def perMinute (n : Nat) : Quota :=
  let interval := 60000000000 / n
  ⟨interval, interval * (n - 1)⟩

/-- The time from which a request is admitted, given when the next one is due. -/
def opensAt (q : Quota) (due : Nat) : Nat := due - q.slack

/-- A request at a time, given when the next one is due; without earlier requests it is due at
once.  It is admitted and the next one becomes due, or it has to wait until a time. -/
def check (q : Quota) (due : Option Nat) (now : Nat) : Except Nat Nat :=
  let due := due.getD now
  if q.opensAt due ≤ now then .ok (max due now + q.interval) else .error (q.opensAt due)

theorem check_eq_ok_iff {q : Quota} {due : Option Nat} {now next : Nat} :
    q.check due now = .ok next ↔
      q.opensAt (due.getD now) ≤ now ∧ next = max (due.getD now) now + q.interval := by
  by_cases h : q.opensAt (due.getD now) ≤ now
  · simp [check, h, eq_comm]
  · simp [check, h]

theorem check_at_retry {q : Quota} {due : Nat} {now retry : Nat}
    (h : q.check (some due) now = .error retry) :
    ∃ next, q.check (some due) retry = .ok next := by
  by_cases ho : q.opensAt due ≤ now
  · simp [check, ho] at h
  · simp only [check, Option.getD_some, ho, if_false, Except.error.injEq] at h
    exact ⟨_, check_eq_ok_iff.2 ⟨by simp [h], rfl⟩⟩

end Quota

end AgentSwarm
