/-
**The life of a swarm.**

From the day it is built a swarm sees operations: agents join, statuses are set, calls begin, complete
or are dropped, and changes of the roster are refused.  The log of the operations alone says who stood
active when, and which completed calls an agent served in; what the swarm keeps in its books is
compared to it elsewhere.

Main definitions:

* `AgentSwarm.Operation` — what is done to a swarm, or becomes of its calls;
* `AgentSwarm.standing`, `AgentSwarm.served` — the status that an agent has after operations, and
  the calls that completed while it was active;
* `AgentSwarm.Unbroken` — the roster does not change during a call that completes;
* `AgentSwarm.Swarm.Life` — the swarms that a blueprint can come to, with all operations on the way.

Main results:

* `AgentSwarm.served_concat` — a call is served in when it completes;
* `AgentSwarm.Unbroken.standing_eq` — no status changes during a call that completes;
* `AgentSwarm.Swarm.step?_cases` — the executor goes on, and at most one call completes.
-/

import AgentSwarm.Proofs.Swarm.Runs
import Mathlib.Data.List.Induction

set_option relaxedAutoImplicit false
set_option autoImplicit false

namespace AgentSwarm

/-! ### Operations -/

/-- What is done to a swarm, or becomes of its calls. -/
inductive Operation where
  /-- An agent joins. -/
  | joined (id : String)
  /-- The status of an agent is set. -/
  | switched (id : String) (status : Status)
  /-- A change of the roster is refused. -/
  | refused (e : SwarmError)
  /-- A call begins to work on a task. -/
  | began (call : Nat) (taskId : String)
  /-- A call is dropped before it has completed. -/
  | dropped (call : Nat)
  /-- A call completes with the results of its agents. -/
  | completed (call : Nat) (results : List (String × AgentResult Float))

namespace Operation

/-- Who joins. -/
def joined? : Operation → Option String
  | joined id => some id
  | _ => none

/-- Which call begins, and the id of its task. -/
def began? : Operation → Option (Nat × String)
  | began call taskId => some (call, taskId)
  | _ => none

/-- Which call is dropped. -/
def dropped? : Operation → Option Nat
  | dropped call => some call
  | _ => none

/-- Which call completes, and its results. -/
def completed? : Operation → Option (Nat × List (String × AgentResult Float))
  | completed call results => some (call, results)
  | _ => none

/-- Whether the roster changes. -/
def isChange : Operation → Bool
  | joined _ | switched _ _ => true
  | _ => false

/-- The status of an agent after an operation; `before` is the one it had, if it was there. -/
def standing (id : String) (before : Option Status) : Operation → Option Status
  | joined other => if other = id then some .active else before
  | switched other status => if other = id then before.map fun _ => status else before
  | _ => before

/-- Only changes of the roster set a status. -/
theorem standing_of_not_change {d : Operation} (h : d.isChange = false) (id : String)
    (before : Option Status) : d.standing id before = before := by
  cases d with
  | joined | switched => cases h
  | refused | began | dropped | completed => rfl

end Operation

/-- The ids of those who joined, in order. -/
def joinedIn (ops : List Operation) : List String := ops.filterMap (·.joined?)

/-- The calls that began with the ids of their tasks, in order. -/
def begunIn (ops : List Operation) : List (Nat × String) := ops.filterMap (·.began?)

/-- The calls that were dropped, in order. -/
def droppedIn (ops : List Operation) : List Nat := ops.filterMap (·.dropped?)

/-- The calls that completed with their results, in order. -/
def completedIn (ops : List Operation) : List (Nat × List (String × AgentResult Float)) :=
  ops.filterMap (·.completed?)

/-- The status that an agent has after operations; none when it has not joined. -/
def standing (id : String) (ops : List Operation) : Option Status :=
  ops.foldl (Operation.standing id) none

/-- The calls that complete while an agent is active; `status` is the one it has at first. -/
def servedFrom (id : String) : Option Status → List Operation →
    List (Nat × List (String × AgentResult Float))
  | _, [] => []
  | status, d :: rest =>
    (if status = some .active then d.completed?.toList else []) ++
      servedFrom id (d.standing id status) rest

/-- **The calls that an agent served in**: they completed while it was active. -/
def served (id : String) (ops : List Operation) : List (Nat × List (String × AgentResult Float)) :=
  servedFrom id none ops

/-- The roster does not change from the beginning of a call to its completion. -/
def Unbroken (ops : List Operation) : Prop :=
  ∀ before call results after, ops = before ++ .completed call results :: after →
    ∃ early taskId during, before = early ++ .began call taskId :: during ∧
      ∀ d ∈ during, d.isChange = false

section

variable {ops : List Operation} {d : Operation} {id : String}

@[simp] theorem joinedIn_concat : joinedIn (ops ++ [d]) = joinedIn ops ++ d.joined?.toList := by
  cases h : d.joined? <;> simp [joinedIn, h]

@[simp] theorem begunIn_concat : begunIn (ops ++ [d]) = begunIn ops ++ d.began?.toList := by
  cases h : d.began? <;> simp [begunIn, h]

@[simp] theorem droppedIn_concat :
    droppedIn (ops ++ [d]) = droppedIn ops ++ d.dropped?.toList := by
  cases h : d.dropped? <;> simp [droppedIn, h]

@[simp] theorem completedIn_concat :
    completedIn (ops ++ [d]) = completedIn ops ++ d.completed?.toList := by
  cases h : d.completed? <;> simp [completedIn, h]

theorem standing_concat : standing id (ops ++ [d]) = d.standing id (standing id ops) := by
  simp [standing]

theorem servedFrom_concat (status : Option Status) : servedFrom id status (ops ++ [d]) =
    servedFrom id status ops ++
      if ops.foldl (Operation.standing id) status = some .active
        then d.completed?.toList else [] := by
  induction ops generalizing status with
  | nil => exact List.append_nil _
  | cons first rest ih =>
      rw [List.cons_append, servedFrom, ih, servedFrom, List.foldl_cons, List.append_assoc]

/-- **A call is served in when it completes** and the agent is active. -/
theorem served_concat : served id (ops ++ [d]) = served id ops ++
    if standing id ops = some .active then d.completed?.toList else [] :=
  servedFrom_concat none

/-- Who has not joined has no status and served in nothing. -/
theorem served_of_not_joined (h : id ∉ joinedIn ops) :
    standing id ops = none ∧ served id ops = [] := by
  induction ops using List.reverseRecOn with
  | nil => exact ⟨rfl, rfl⟩
  | append_singleton ops d ih =>
      rw [joinedIn_concat, List.mem_append, not_or] at h
      obtain ⟨hstanding, hserved⟩ := ih h.1
      rw [standing_concat, served_concat, hstanding, hserved]
      refine ⟨?_, by simp⟩
      cases d with
      | joined other =>
          have hne : other ≠ id := fun he => h.2 (by simp [Operation.joined?, he])
          exact if_neg hne
      | switched other status =>
          simp [Operation.standing]
      | refused | began | dropped | completed => rfl

/-- An operation breaks no call; one that completes has begun before, with no change since. -/
theorem Unbroken.concat (h : Unbroken ops)
    (hd : ∀ call results, d = .completed call results → ∃ early taskId during,
      ops = early ++ .began call taskId :: during ∧ ∀ d ∈ during, d.isChange = false) :
    Unbroken (ops ++ [d]) := by
  intro before call results after he
  rcases List.eq_nil_or_concat after with rfl | ⟨front, last, rfl⟩
  · obtain ⟨rfl, hlast⟩ := List.append_inj' he rfl
    exact hd call results (List.singleton_inj.1 hlast)
  · rw [List.concat_eq_append, ← List.cons_append, ← List.append_assoc] at he
    exact h _ _ _ _ (List.append_inj' he rfl).1

/-- **No status changes during a call that completes**: every agent has at the beginning of the call
the status that it has at its completion. -/
theorem Unbroken.standing_eq {before after : List Operation} {call : Nat}
    {results : List (String × AgentResult Float)} (h : Unbroken ops)
    (he : ops = before ++ .completed call results :: after) : ∃ early taskId during,
      before = early ++ .began call taskId :: during ∧
        ∀ id, standing id before = standing id early := by
  obtain ⟨early, taskId, during, rfl, hduring⟩ := h before call results after he
  refine ⟨early, taskId, during, rfl, fun id => ?_⟩
  have hconst (status : Option Status) : during.foldl (Operation.standing id) status = status := by
    clear he
    induction during generalizing status with
    | nil => rfl
    | cons d rest ih =>
        rw [List.foldl_cons, Operation.standing_of_not_change (hduring d (by simp))]
        exact ih (fun d hd => hduring d (List.mem_cons_of_mem _ hd)) status
  rw [standing, standing, List.foldl_append, List.foldl_cons, hconst]
  rfl

end

/-! ### Lives -/

/-- A call that returns completes. -/
def Occurrence.completion? : Occurrence → Option Operation
  | .returned call results _ => some (.completed call results)
  | _ => none

/-- Nothing completes when no call returns. -/
theorem filterMap_completion?_eq_nil {seen : List Occurrence}
    (h : ∀ k results time, .returned k results time ∉ seen) :
    seen.filterMap (·.completion?) = [] := by
  rw [List.filterMap_eq_nil_iff]
  intro o ho
  cases o with
  | returned k results time => exact absurd ho (h k results time)
  | dispatched | sent | ended | reported => rfl

/-- What an action of the executor drops. -/
def Action.drops : Action → List Operation
  | .abandon call => [.dropped call]
  | _ => []

namespace Swarm

/-- The operations of a step in which the executor did and was seen to do something. -/
def Act.operations (s : Swarm) (trace : Trace) : Act → List Operation
  | .begin task _ => [.began s.world.nextCall task.id]
  | .go a => a.drops ++ trace.seen.filterMap (·.completion?)
  | .add agent => [.joined agent.id]
  | .setStatus id status => [.switched id status]

/-- A change of the roster fails. -/
inductive Refuses (s : Swarm) : SwarmError → Prop
  | add {agent : AgentSpec} {e : SwarmError} : Blueprint.register s agent = .error e → Refuses s e
  | setStatus {id : String} {status : Status} {e : SwarmError} : s.setStatus id status = .error e →
      Refuses s e

/-- **The swarms that a blueprint can come to**, with all operations on the way.  A change that is
refused leaves the swarm as it is. -/
inductive Life (b : Blueprint) : List Operation → Swarm → Prop
  | born {id : List Char} {s : Swarm} : b.build id = .ok s →
      Life b ((b.variantAgents ++ b.agents).map fun agent => .joined agent.id) s
  | step {ops : List Operation} {s s' : Swarm} {act : Act} {trace : Trace} {told : List Event} :
      Life b ops s → Step s act trace told s' → Life b (ops ++ act.operations s trace) s'
  | refuse {ops : List Operation} {s : Swarm} {e : SwarmError} : Life b ops s → s.openTasks = [] →
      s.Refuses e → Life b (ops ++ [.refused e]) s

variable {b : Blueprint} {ops : List Operation} {s s' : Swarm} {acts : List Act} {a : Action}
  {seen : List Occurrence} {trace : Trace} {told : List Event}

/-- Who has joined cannot join again. -/
theorem register_eq_error_iff {agent : AgentSpec} {e : SwarmError} :
    Blueprint.register s agent = .error e ↔
      agent.id ∈ s.roster.ids ∧ e = .duplicateAgent agent.id := by
  by_cases h : agent.id ∈ s.roster.ids
  · simp [Blueprint.register, addAgent, Roster.add, Roster.contains, Agent.create, h, bind,
      Except.bind, eq_comm]
  · simp [Blueprint.register, addAgent, Roster.add, Roster.contains, Agent.create, h, bind,
      Except.bind, pure, Except.pure]

/-- The status of one who has not joined cannot be set. -/
theorem setStatus_eq_error_iff {id : String} {status : Status} {e : SwarmError} :
    s.setStatus id status = .error e ↔ id ∉ s.roster.ids ∧ e = .unknownAgent id := by
  by_cases h : id ∈ s.roster.ids
  · simp [Swarm.setStatus, Roster.setStatus, Roster.contains, h, bind, Except.bind, pure,
      Except.pure]
  · simp [Swarm.setStatus, Roster.setStatus, Roster.contains, h, bind, Except.bind, eq_comm]

/-- **A run adds its operations to a life**, and completed are the calls that return in it. -/
theorem Life.run (h : Life b ops s) (hrun : Run s acts trace told s') :
    ∃ more, Life b (ops ++ more) s' ∧
      completedIn more = completedIn (trace.seen.filterMap (·.completion?)) := by
  induction hrun with
  | refl => exact ⟨[], by rwa [List.append_nil], rfl⟩
  | @step acts act trace later _ _ s₁ s₂ _ hstep ih =>
      obtain ⟨more, hlife, hdone⟩ := ih
      refine ⟨more ++ act.operations s₁ later, ?_, ?_⟩
      · rw [← List.append_assoc]
        exact hlife.step hstep
      · have hlater : completedIn (act.operations s₁ later) =
            completedIn (later.seen.filterMap (·.completion?)) := by
          cases hstep with
          | begin | add | setStatus => rfl
          | @go a _ _ _ _ =>
              rw [Act.operations, completedIn, List.filterMap_append]
              cases a <;> rfl
        rw [Trace.seen_append, List.filterMap_append, completedIn, List.filterMap_append,
          completedIn, List.filterMap_append]
        exact congrArg₂ (· ++ ·) hdone hlater

/-- What is seen of the executor changes nothing but the bus as long as no call returns. -/
theorem foldl_absorb_quiet (h : ∀ k results time, .returned k results time ∉ seen) :
    ∃ bus, seen.foldl absorb s = { s with bus } := by
  induction seen generalizing s with
  | nil => exact ⟨s.bus, rfl⟩
  | cons o rest ih =>
      have hfirst : ∃ bus, s.absorb o = { s with bus } := by
        rcases s.absorb_cases o with hquiet | ⟨t, results, time, rfl, _⟩
        · exact hquiet
        · exact absurd (List.mem_cons_self ..) (h t.call results time)
      obtain ⟨bus, hfirst⟩ := hfirst
      obtain ⟨bus', hrest⟩ := ih (s := s.absorb o)
        fun k results time hmem => h k results time (List.mem_cons_of_mem _ hmem)
      exact ⟨bus', by rw [List.foldl_cons, hrest, hfirst]⟩

/-- **The executor goes on, and at most one call completes**: none does and only the bus changes, or
an actor goes on, whose call was under way and returns. -/
theorem step?_cases (h : s.step? a = some (s', seen)) (hs : s.world.Sound) :
    (∃ bus, (∀ k results time, .returned k results time ∉ seen) ∧
      s' = { s.resume a s'.world with bus }) ∨
    ∃ bus k results time, .returned k results time ∈ seen ∧ s.world.call? k ≠ none ∧
      a.drops ++ seen.filterMap (·.completion?) = [.completed k results] ∧
      s' = ({ s.resume a s'.world with bus } : Swarm).absorb (.returned k results time) ∧
      s.openAfter a = s.openTasks := by
  obtain ⟨hworld, he⟩ := eq_of_step? h
  rcases (World.step_of_step? hworld (World.lawful_anyLaw _ a)).returns hs with
    hnone | ⟨before, k, results, time, c, actor, response, rfl, hbefore, hc, rfl⟩
  · obtain ⟨bus, hquiet⟩ := foldl_absorb_quiet (s := s.resume a s'.world) hnone
    exact .inl ⟨bus, hnone, he.trans hquiet⟩
  · obtain ⟨bus, hquiet⟩ :=
      foldl_absorb_quiet (s := s.resume (.run actor response) s'.world) hbefore
    refine .inr ⟨bus, k, results, time, by simp, by simp [hc], ?_, ?_, rfl⟩
    · rw [List.filterMap_append, filterMap_completion?_eq_nil hbefore]
      rfl
    · rw [List.foldl_append, hquiet] at he
      exact he

end Swarm

end AgentSwarm
