/-
**Enrolment.**

A swarm changes its roster by registering agents and by setting their statuses.  It tells its
observers of every agent that is registered, and of nothing else: a registration that is refused is
not told, though the event is made before the roster is asked.

Main definitions:

* `AgentSwarm.Swarm.enrolled` — a swarm with another roster that was told;
* `AgentSwarm.Swarm.Change`, `AgentSwarm.Swarm.Change.inPlace` — changes of a swarm's roster, and how
  they are made step by step;
* `AgentSwarm.Swarm.Change.told?` — what observers are told of a change that is made.

Main results:

* `AgentSwarm.Swarm.Change.run_inPlace` — what fails leaves the swarm as it was;
* `AgentSwarm.Swarm.foldl_tried` — only the roster and the bus are changed, by the changes that are
  made;
* `AgentSwarm.Swarm.enrolment` — **what changes make of the roster, and what is told of them**.
-/

import AgentSwarm.Proofs.Roster.Changes
import AgentSwarm.Proofs.Swarm.Runs

set_option relaxedAutoImplicit false
set_option autoImplicit false

namespace AgentSwarm.Swarm

variable {s : Swarm}

/-! ### The roster and the bus -/

/-- The swarm with another roster, when observers were told of something. -/
def enrolled (s : Swarm) (roster : Roster) (told : List Event) : Swarm :=
  { s with roster, bus := s.bus.map (·.publishAll told) }

@[simp] theorem enrolled_self (s : Swarm) : s.enrolled s.roster [] = s := by
  simp [enrolled]

@[simp] theorem enrolled_enrolled (s : Swarm) (roster roster' : Roster) (told more : List Event) :
    (s.enrolled roster told).enrolled roster' more = s.enrolled roster' (told ++ more) := by
  simp only [enrolled, Option.map_map, Function.comp_def, EventBus.publishAll_append]

/-! ### Changes -/

/-- A change of a swarm's roster. -/
inductive Change where
  | add (agent : AgentSpec)
  | setStatus (id : String) (status : Status)

namespace Change

/-- The change of the roster; `window` is the history window of agents that are added. -/
def onRoster (window : Nat) : Change → Roster.Change
  | add agent => .add (.create agent.id agent.specialization agent.role agent.partition agent.profile
      window)
  | setStatus id status => .setStatus id status

/-- What observers are told of a change that is made. -/
def told? (s : Swarm) : Change → Option Event
  | add agent => some (s.event (.agentRegistered agent.id agent.specialization agent.partition))
  | setStatus _ _ => none

/-- What comes of a change. -/
def apply : Change → Swarm → Except SwarmError Swarm
  | add agent, s => Blueprint.register s agent
  | setStatus id status, s => s.setStatus id status

/-- **A change is made exactly when the roster makes it**, and then it is told. -/
theorem apply_eq (c : Change) (s : Swarm) : c.apply s =
    ((c.onRoster s.historyWindow).apply s.roster).map fun roster =>
      s.enrolled roster (c.told? s).toList := by
  cases c with
  | add agent =>
      simp only [apply, Blueprint.register, addAgent, onRoster, Roster.Change.apply, bind, Except.bind]
      cases s.roster.add (.create agent.id agent.specialization agent.role agent.partition
        agent.profile s.historyWindow) <;> rfl
  | setStatus id status =>
      simp only [apply, Swarm.setStatus, onRoster, Roster.Change.apply, bind, Except.bind]
      cases s.roster.setStatus id status with
      | ok roster => simp [enrolled, told?, pure, Except.pure, Except.map]
      | error e => rfl

/-- What is told of a change does not depend on the roster and the bus. -/
theorem told?_enrolled (s : Swarm) (roster : Roster) (told : List Event) :
    told? (s.enrolled roster told) = told? s := by
  funext c
  cases c <;> rfl

/-! ### Changes in place -/

/-- A change of the roster in place is one of the swarm. -/
def within (act : ExceptT SwarmError (StateM Roster) Unit) : ExceptT SwarmError (StateM Swarm) Unit :=
  fun s =>
    let (outcome, roster) := act.run.run s.roster
    (outcome, { s with roster })

theorem run_within (act : ExceptT SwarmError (StateM Roster) Unit) (s : Swarm) :
    (within act).run.run s =
      ((act.run.run s.roster).1, { s with roster := (act.run.run s.roster).2 }) := rfl

/-- What comes after a change of the roster comes only if that is made. -/
theorem run_within_bind (act : ExceptT SwarmError (StateM Roster) Unit)
    (next : Unit → ExceptT SwarmError (StateM Swarm) Unit) (s : Swarm) :
    (within act >>= next).run.run s =
      match act.run.run s.roster with
      | (.ok u, roster) => (next u).run.run { s with roster }
      | (.error e, roster) => (.error e, { s with roster }) := by
  show ExceptT.bindCont next (act.run.run s.roster).1 { s with roster := (act.run.run s.roster).2 } = _
  rcases act.run.run s.roster with ⟨u | e, roster⟩ <;> rfl

/-- How a change is made in place: the roster is asked first, then observers are told. -/
def inPlace : Change → ExceptT SwarmError (StateM Swarm) Unit
  | add agent => do
      let s ← get
      let kind : EventKind := .agentRegistered agent.id agent.specialization agent.partition
      within ((add agent).onRoster s.historyWindow).inPlace
      modify (·.tell kind)
  | setStatus id status => within (Roster.Change.setStatus id status).inPlace

/-- **What fails leaves the swarm as it was**, and nothing is told of it. -/
theorem run_inPlace (c : Change) (s : Swarm) : c.inPlace.run.run s =
    match c.apply s with
    | .ok s' => (.ok (), s')
    | .error e => (.error e, s) := by
  rw [apply_eq]
  have hroster := (c.onRoster s.historyWindow).run_inPlace s.roster
  cases c with
  | add agent =>
      rw [inPlace, run_get_bind, run_within_bind, hroster]
      cases ((add agent).onRoster s.historyWindow).apply s.roster <;> rfl
  | setStatus id status =>
      rw [onRoster] at hroster ⊢
      rw [inPlace, run_within, hroster]
      cases (Roster.Change.setStatus id status).apply s.roster <;> simp [Except.map, enrolled, told?]

end Change

/-! ### Changes one after another -/

/-- The roster makes the changes that the swarm makes, **and what is told is told of these**. -/
theorem foldl_tried (s : Swarm) (changes : List Change) :
    changes.foldl (tried Change.apply) s =
        s.enrolled ((changes.map (·.onRoster s.historyWindow)).foldl (tried Roster.Change.apply) s.roster)
          ((made Change.apply s changes).filterMap (·.told? s)) ∧
      (made Change.apply s changes).map (·.onRoster s.historyWindow) =
        made Roster.Change.apply s.roster (changes.map (·.onRoster s.historyWindow)) := by
  induction changes generalizing s with
  | nil => simp [made]
  | cons c rest ih =>
      have happly := c.apply_eq s
      cases hroster : (c.onRoster s.historyWindow).apply s.roster with
      | ok roster =>
          rw [hroster, Except.map] at happly
          obtain ⟨hstate, hmade⟩ := ih (s.enrolled roster (c.told? s).toList)
          rw [List.foldl_cons, tried_of_ok happly, made_cons_of_ok happly, List.map_cons, List.map_cons,
            List.foldl_cons, tried_of_ok hroster, made_cons_of_ok hroster, hstate, enrolled_enrolled,
            Change.told?_enrolled, List.filterMap_cons]
          refine ⟨?_, congrArg _ hmade⟩
          cases c.told? s <;> rfl
      | error e =>
          rw [hroster, Except.map] at happly
          rw [List.foldl_cons, tried_of_error happly, made_cons_of_error happly, List.map_cons,
            List.foldl_cons, tried_of_error hroster, made_cons_of_error hroster]
          exact ih s

/-- **What changes make of a roster.**  One that was empty reflects the changes that were made; nobody
is its own peer, and peers are each other's.  Adding fails exactly for an id that is there, setting a
status exactly for one that is not; what fails leaves everything as it was, though changes are made in
place.  A swarm's observers are told once of every registration that is made, and of nothing else, and
its bus carries what they are told. -/
theorem enrolment :
    (∀ changes : List Roster.Change,
      let r := changes.foldl (tried Roster.Change.apply) .empty
      r.Reflects (made Roster.Change.apply .empty changes) ∧
        (∀ a ∈ r.agents, a.id ∉ a.peers) ∧
        ∀ a ∈ r.agents, ∀ b ∈ r.agents, b.id ∈ a.peers ↔ a.id ∈ b.peers) ∧
    (∀ (r : Roster) (agent : Agent) (e : SwarmError),
      r.add agent = .error e ↔ agent.id ∈ r.ids ∧ e = .duplicateAgent agent.id) ∧
    (∀ (r : Roster) (id : String) (status : Status) (e : SwarmError),
      r.setStatus id status = .error e ↔ id ∉ r.ids ∧ e = .unknownAgent id) ∧
    (∀ (r : Roster) (c : Roster.Change), c.inPlace.run.run r =
      match c.apply r with
      | .ok r' => (.ok (), r')
      | .error e => (.error e, r)) ∧
    (∀ (s : Swarm) (c : Change), c.inPlace.run.run s =
      match c.apply s with
      | .ok s' => (.ok (), s')
      | .error e => (.error e, s)) ∧
    ∀ (s : Swarm) (changes : List Change),
      changes.foldl (tried Change.apply) s =
          s.enrolled
            ((changes.map (·.onRoster s.historyWindow)).foldl (tried Roster.Change.apply) s.roster)
            ((made Change.apply s changes).filterMap (·.told? s)) ∧
        (made Change.apply s changes).map (·.onRoster s.historyWindow) =
          made Roster.Change.apply s.roster (changes.map (·.onRoster s.historyWindow)) ∧
        Option.Rel (·.Carries ((made Change.apply s changes).filterMap (·.told? s)) ·) s.bus
          (changes.foldl (tried Change.apply) s).bus := by
  refine ⟨fun changes => ?_, fun _ _ _ => Roster.add_eq_error_iff,
    fun _ _ _ _ => Roster.setStatus_eq_error_iff, fun r c => c.run_inPlace r, fun s c => c.run_inPlace s,
    fun s changes => ?_⟩
  · have h := Roster.reflects_made changes
    exact ⟨h, fun a ha => h.not_peer_self ha, fun a ha b hb => h.peer_symm ha hb⟩
  · obtain ⟨hstate, hmade⟩ := foldl_tried s changes
    refine ⟨hstate, hmade, ?_⟩
    rw [hstate, enrolled]
    cases s.bus with
    | none => exact .none
    | some b => exact .some (b.carries_publishAll _)

end AgentSwarm.Swarm
