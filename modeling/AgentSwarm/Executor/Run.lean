/-
**Running to the end.**

The runner takes one definite course through the steps of a world: the actor that has been ready
longest goes on, and time passes only when none is ready.  A backend answers requests one after
another and may remember them.  Cancelling and abandoning calls follows an agenda.

Main definitions:

* `AgentSwarm.Backend` — answers requests from a state;
* `AgentSwarm.Host` — something whose steps are those of a world;
* `AgentSwarm.Runner` — a host with a backend and the occurrences so far;
* `AgentSwarm.Runner.finishCalls` — running until no call is left.
-/

import AgentSwarm.Executor.Step

set_option relaxedAutoImplicit false
set_option autoImplicit false

namespace AgentSwarm

/-- Answers requests from a state. -/
abbrev Backend (B : Type) := B → Request → Response × B

/-- Something whose steps are those of a world. -/
structure Host (H : Type) where
  world : H → World
  step? : H → Action → Option (H × List Occurrence)

/-- A world by itself. -/
def Host.bare : Host World := ⟨id, World.step?⟩

/-- A step at a time. -/
abbrev Agenda := List (Nat × Action)

/-- A host with a backend and the occurrences so far, latest first. -/
structure Runner (H B : Type) where
  host : H
  backend : B
  seen : List Occurrence

namespace Runner

variable {H B : Type}

/-- The runner after a step; an impossible step changes nothing. -/
def act (host : Host H) (r : Runner H B) (a : Action) : Runner H B :=
  match host.step? r.host a with
  | some (h, seen) => { r with host := h, seen := seen.reverse ++ r.seen }
  | none => r

/-- The runner after an actor went on, with the backend asked if need be. -/
def runActor (host : Host H) (backend : Backend B) (r : Runner H B) (a : Actor) : Runner H B :=
  match (host.world r.host).request? a with
  | none => r.act host (.run a default)
  | some request =>
    let (response, b) := backend r.backend request
    ({ r with backend := b }).act host (.run a response)

/-- The earlier of two times, of which the first may not be there. -/
def earlier (a : Option Nat) (b : Nat) : Nat := (a.map (min b)).getD b

/-- Runs until no call is left, at most `fuel` steps. -/
def runCalls (host : Host H) (backend : Backend B) : Nat → Agenda → Runner H B → Runner H B
  | 0, _, r => r
  | fuel + 1, agenda, r =>
    let w := host.world r.host
    if w.calls.isEmpty then r
    else
      match agenda with
      | (time, action) :: later =>
        if time ≤ w.now then runCalls host backend fuel later (r.act host action)
        else
          match w.ready with
          | a :: _ => runCalls host backend fuel agenda (r.runActor host backend a)
          | [] => runCalls host backend fuel agenda (r.act host (.pass (earlier w.nextAlarm time)))
      | [] =>
        match w.ready with
        | a :: _ => runCalls host backend fuel [] (r.runActor host backend a)
        | [] =>
          match w.nextAlarm with
          | some time => runCalls host backend fuel [] (r.act host (.pass time))
          | none => r

/-- A number of steps that suffices for the calls of a world: an invocation waits for its quota at
most once for every invocation before it. -/
def enough (w : World) (agenda : Agenda) : Nat :=
  let n := w.calls.foldl (fun n c => n + c.agents.length) 0 + w.calls.length
  4 * (n + 2) * (n + 2) + agenda.length

/-- Runs until no call is left. -/
def finishCalls (host : Host H) (backend : Backend B) (agenda : Agenda) (r : Runner H B) :
    Runner H B :=
  runCalls host backend (enough (host.world r.host) agenda) agenda r

/-- Lets time pass while nothing is under way. -/
def rest (host : Host H) (r : Runner H B) (millis : Nat) : Runner H B :=
  r.act host (.pass ((host.world r.host).now + millis))

end Runner

end AgentSwarm
