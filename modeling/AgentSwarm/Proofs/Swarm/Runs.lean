/-
**Runs of a swarm.**

A swarm lives through steps: a task begins, the executor goes on, and between tasks agents are added
and their statuses set.  A run remembers what the executor did in it and what the observers were
told; what they were told is what their bus got to publish.

Main definitions:

* `AgentSwarm.Swarm.hear`, `AgentSwarm.Swarm.hearAll` — what observers are told of occurrences;
* `AgentSwarm.Swarm.Step`, `AgentSwarm.Swarm.Run`, `AgentSwarm.Swarm.Reachable` — steps, runs and
  the swarms that a blueprint can come to;
* `AgentSwarm.Swarm.Orderly` — ids and calls are not used twice;
* `AgentSwarm.Blueprint.vacant` — a swarm before its agents are registered.

Main results:

* `AgentSwarm.Swarm.Run.bus` — **the bus publishes what observers are told**;
* `AgentSwarm.Swarm.Run.world`, `AgentSwarm.Swarm.exists_run` — a run of a swarm is one of its
  executor, and goes along with it;
* `AgentSwarm.Swarm.build_induction` — what registering agents keeps holds of a swarm that was just
  built;
* `AgentSwarm.Swarm.Reachable.orderly` — reachable swarms are orderly.
-/

import AgentSwarm.Proofs.EventBus.Publication
import AgentSwarm.Proofs.Executor.Runs
import AgentSwarm.Proofs.Executor.Course
import AgentSwarm.Swarm.Blueprint

set_option relaxedAutoImplicit false
set_option autoImplicit false

namespace AgentSwarm

/-- What observers are told of an occurrence in a task; `final` is the event of its results. -/
def Occurrence.taskEvent? (final : List (String × AgentResult Float) → TaskEvent) :
    Occurrence → Option TaskEvent
  | .dispatched _ index ids _ => some (.batchDispatched index ids.length)
  | .reported _ r => some (Swarm.resultEvent r)
  | .returned _ results _ => some (final results)
  | .sent _ _ _ | .ended _ _ => none

/-- A swarm of the blueprint before its agents are registered. -/
def Blueprint.vacant (b : Blueprint) (id : List Char) (x : Executor) : Swarm :=
  { id, name := b.name, roster := .empty, world := .idle x, voteKey := b.voteKey
    prompts := b.chosenPrompts, defaultAlgorithm := b.defaultAlgorithm
    historyWindow := max b.historyWindow 1, bus := b.bus, openTasks := [], reports := []
    totalTasks := 0, totalMillis := 0 }

namespace Swarm

variable {s s' s₁ s₂ : Swarm}

/-! ### What observers are told -/

/-- Something that happens in the swarm now. -/
def event (s : Swarm) (kind : EventKind) : Event := ⟨s.idText, kind, s.now⟩

/-- What observers are told of a task that begins. -/
def startEvent (s : Swarm) (task : Task) : Event :=
  s.event (.task task.id (.started task.taskType s.roster.agents.length s.strategy.name))

/-- The event of the results of a task. -/
def finalEvent (s : Swarm) (t : OpenTask) (results : List (String × AgentResult Float)) :
    TaskEvent :=
  consensusEvent t.algorithm (aggregate s.voteKey t.algorithm results)

/-- What observers are told of an occurrence. -/
def hear (s : Swarm) (o : Occurrence) : List Event :=
  match s.openTask? o.call with
  | some t => ((o.taskEvent? (s.finalEvent t)).map fun e => s.event (.task t.taskId e)).toList
  | none => []

/-- What observers are told of occurrences one after another. -/
def hearAll : Swarm → List Occurrence → List Event
  | _, [] => []
  | s, o :: rest => s.hear o ++ hearAll (s.absorb o) rest

/-- The bus publishes what observers are told of an occurrence. -/
theorem bus_absorb (s : Swarm) (o : Occurrence) :
    (s.absorb o).bus = s.bus.map (·.publishAll (s.hear o)) := by
  cases o with
  | dispatched call | reported call | returned call =>
      simp only [absorb, hear, Occurrence.call]
      cases s.openTask? call with
      | none => simp
      | some t => rfl
  | sent call | ended call =>
      simp only [absorb, hear, Occurrence.call]
      cases s.openTask? call <;> simp [Occurrence.taskEvent?]

theorem bus_foldl_absorb (s : Swarm) (seen : List Occurrence) :
    (seen.foldl absorb s).bus = s.bus.map (·.publishAll (s.hearAll seen)) := by
  induction seen generalizing s with
  | nil => simp [hearAll]
  | cons o rest ih =>
      rw [List.foldl_cons, ih, bus_absorb, Option.map_map]
      simp only [Function.comp_def, hearAll, EventBus.publishAll_append]

/-! ### Steps -/

/-- The swarm when its executor has done an action and nothing is told yet. -/
def resume (s : Swarm) (a : Action) (w : World) : Swarm :=
  { s with world := w, openTasks := s.openAfter a }

/-- Something that is done with a swarm. -/
inductive Act where
  | begin (task : Task) (algorithm : Option Algorithm)
  | go (a : Action)
  | add (agent : AgentSpec)
  | setStatus (id : String) (status : Status)

/-- A step of a swarm, with what its executor does and what observers are told.  Tasks begin and the
executor goes on at any time; the roster is changed between tasks. -/
inductive Step (s : Swarm) : Act → Trace → List Event → Swarm → Prop
  | begin (task : Task) (algorithm : Option Algorithm) :
      Step s (.begin task algorithm) [(.begin s.roster.agents task s.prompts, [])]
        [s.startEvent task] (s.beginTask task algorithm).1
  | go {a : Action} {seen : List Occurrence} {s' : Swarm} :
      (∀ agents task prompts, a ≠ .begin agents task prompts) → s.step? a = some (s', seen) →
      Step s (.go a) [(a, seen)]
        ((s.resume a s'.world).hearAll seen) s'
  | add {agent : AgentSpec} {s' : Swarm} : s.openTasks = [] →
      Blueprint.register s agent = .ok s' →
      Step s (.add agent) []
        [s.event (.agentRegistered agent.id agent.specialization agent.partition)] s'
  | setStatus {id : String} {status : Status} {s' : Swarm} : s.openTasks = [] →
      s.setStatus id status = .ok s' → Step s (.setStatus id status) [] [] s'

/-- Steps one after another, with all that was done and told. -/
inductive Run (s : Swarm) : List Act → Trace → List Event → Swarm → Prop
  | refl : Run s [] [] [] s
  | step {acts : List Act} {act : Act} {trace more : Trace} {told later : List Event}
      {s₁ s₂ : Swarm} : Run s acts trace told s₁ → Step s₁ act more later s₂ →
      Run s (acts ++ [act]) (trace ++ more) (told ++ later) s₂

/-- The swarms that a blueprint can come to. -/
def Reachable (s : Swarm) : Prop :=
  ∃ (b : Blueprint) (id : List Char) (s₀ : Swarm) (acts : List Act) (trace : Trace)
    (told : List Event), b.build id = .ok s₀ ∧ Run s₀ acts trace told s

variable {acts : List Act} {act : Act} {trace : Trace} {told : List Event}

/-- What is seen of the executor changes nothing but the bus, unless an open task comes to its
end. -/
theorem absorb_cases (s : Swarm) (o : Occurrence) :
    (∃ bus, s.absorb o = { s with bus }) ∨
      ∃ t results time, o = .returned t.call results time ∧ s.openTask? t.call = some t ∧
        s.absorb o = s.conclude t results := by
  cases o with
  | dispatched call | reported call =>
      simp only [absorb]
      cases s.openTask? call with
      | none => exact .inl ⟨s.bus, rfl⟩
      | some t => exact .inl ⟨_, rfl⟩
  | returned call results time =>
      simp only [absorb]
      cases ht : s.openTask? call with
      | none => exact .inl ⟨s.bus, rfl⟩
      | some t =>
          obtain rfl : t.call = call := by simpa using List.find?_some ht
          exact .inr ⟨t, results, time, rfl, ht, rfl⟩
  | sent | ended => exact .inl ⟨s.bus, rfl⟩

/-- What is seen of the executor does not change it. -/
theorem world_absorb (s : Swarm) (o : Occurrence) : (s.absorb o).world = s.world := by
  rcases s.absorb_cases o with ⟨bus, he⟩ | ⟨t, results, time, -, -, he⟩
  · rw [he]
  · rw [he]
    rfl

theorem world_foldl_absorb (s : Swarm) (seen : List Occurrence) :
    (seen.foldl absorb s).world = s.world := by
  induction seen generalizing s with
  | nil => rfl
  | cons o rest ih => rw [List.foldl_cons, ih, world_absorb]

/-- A step of the executor, and then what is told of it. -/
theorem eq_of_step? {a : Action} {seen : List Occurrence} (h : s.step? a = some (s', seen)) :
    s.world.step? a = some (s'.world, seen) ∧ s' = seen.foldl absorb (s.resume a s'.world) := by
  unfold step? at h
  split at h
  next => cases h
  next w seen' hw =>
      obtain ⟨rfl, rfl⟩ := Prod.mk.inj (Option.some.inj h)
      rw [world_foldl_absorb]
      exact ⟨hw, rfl⟩

/-- Registering an agent changes the roster and is told. -/
theorem register_spec {agent : AgentSpec} (h : Blueprint.register s agent = .ok s') :
    ∃ roster, s.roster.add (.create agent.id agent.specialization agent.role agent.partition
        agent.profile s.historyWindow) = .ok roster ∧
      s' = { s with roster }.tell
        (.agentRegistered agent.id agent.specialization agent.partition) := by
  simp only [Blueprint.register, addAgent, bind, Except.bind] at h
  split at h
  next => cases h
  next roster hroster => exact ⟨roster, hroster, (Except.ok.inj h).symm⟩

/-- Setting a status changes the roster only. -/
theorem setStatus_spec {id : String} {status : Status} (h : s.setStatus id status = .ok s') :
    ∃ roster, s.roster.setStatus id status = .ok roster ∧ s' = { s with roster } := by
  simp only [Swarm.setStatus, bind, Except.bind] at h
  split at h
  next => cases h
  next roster hroster => exact ⟨roster, hroster, (Except.ok.inj h).symm⟩

/-- The bus publishes what observers are told in a step. -/
theorem Step.bus (h : Step s act trace told s') : s'.bus = s.bus.map (·.publishAll told) := by
  cases h with
  | begin task algorithm => rfl
  | @go a seen _ _ hstep =>
      obtain ⟨_, he⟩ := eq_of_step? hstep
      rw [he, bus_foldl_absorb, ← he]
      rfl
  | add _ hadd =>
      obtain ⟨roster, _, rfl⟩ := register_spec hadd
      rfl
  | setStatus _ hset =>
      obtain ⟨roster, _, rfl⟩ := setStatus_spec hset
      simp

/-- **The bus publishes what observers are told.** -/
theorem Run.bus (h : Run s acts trace told s') : s'.bus = s.bus.map (·.publishAll told) := by
  induction h with
  | refl => simp
  | step _ hstep ih =>
      rw [hstep.bus, ih, Option.map_map]
      simp only [Function.comp_def, EventBus.publishAll_append]

/-- A step of a swarm is one of its executor, or none. -/
theorem Step.world (h : Step s act trace told s') :
    World.Run World.anyLaw s.world trace s'.world := by
  cases h with
  | begin task algorithm => exact .step (h := []) .refl trivial rfl
  | @go a seen _ _ hstep =>
      exact .step (h := []) .refl (World.lawful_anyLaw _ a) (eq_of_step? hstep).1
  | add _ hadd =>
      obtain ⟨roster, _, rfl⟩ := register_spec hadd
      exact .refl
  | setStatus _ hset =>
      obtain ⟨roster, _, rfl⟩ := setStatus_spec hset
      exact .refl

/-- **A run of a swarm is one of its executor.** -/
theorem Run.world (h : Run s acts trace told s') :
    World.Run World.anyLaw s.world trace s'.world := by
  induction h with
  | refl => exact .refl
  | step _ hstep ih => exact ih.trans hstep.world

/-! ### Orderly swarms -/

/-- Ids are not used twice, and the calls of tasks are calls that have begun. -/
structure Orderly (s : Swarm) : Prop where
  ids_nodup : s.roster.ids.Nodup
  calls_lt : ∀ t ∈ s.openTasks, t.call < s.world.nextCall

/-- An agent that was not there is added at the end. -/
theorem ids_add {r r' : Roster} {agent : Agent} (h : r.add agent = .ok r') :
    r'.ids = r.ids ++ [agent.id] ∧ agent.id ∉ r.ids := by
  unfold Roster.add at h
  split at h
  next => cases h
  next hnew =>
      obtain rfl := Except.ok.inj h
      refine ⟨?_, by simpa [Roster.contains] using hnew⟩
      rw [Roster.ids, Roster.ids_linkPeers]
      simp [Roster.ids]

/-- Setting a status changes no id. -/
theorem ids_setStatus {r r' : Roster} {id : String} {status : Status}
    (h : r.setStatus id status = .ok r') : r'.ids = r.ids := by
  unfold Roster.setStatus at h
  split at h
  next =>
      obtain rfl := Except.ok.inj h
      simp only [Roster.ids]
      generalize r.agents = agents
      induction agents with
      | nil => rfl
      | cons a rest ih =>
          simp only [Roster.modifyFirst]
          split
          next => rfl
          next => rw [List.map_cons, List.map_cons, ih]
  next => cases h

/-- Results change no id. -/
theorem ids_recordResults (taskId : String) (results : List (String × AgentResult Float))
    (r : Roster) : (recordResults taskId results r).ids = r.ids := by
  simp only [Roster.ids, recordResults, List.map_map]
  refine List.map_congr_left fun a _ => ?_
  simp only [Function.comp_apply]
  split <;> rfl

/-- What is seen of the executor changes no id and opens no task. -/
theorem absorb_keeps (s : Swarm) (o : Occurrence) :
    (s.absorb o).roster.ids = s.roster.ids ∧ ∀ t ∈ (s.absorb o).openTasks, t ∈ s.openTasks := by
  rcases s.absorb_cases o with ⟨bus, he⟩ | ⟨t, results, time, -, -, he⟩
  · rw [he]
    exact ⟨rfl, fun _ ht => ht⟩
  · rw [he]
    exact ⟨ids_recordResults .., fun _ ht => List.mem_of_mem_filter ht⟩

theorem foldl_absorb_keeps (s : Swarm) (seen : List Occurrence) :
    (seen.foldl absorb s).roster.ids = s.roster.ids ∧
      ∀ t ∈ (seen.foldl absorb s).openTasks, t ∈ s.openTasks := by
  induction seen generalizing s with
  | nil => exact ⟨rfl, fun _ ht => ht⟩
  | cons o rest ih =>
      obtain ⟨hids, hopen⟩ := ih (s.absorb o)
      obtain ⟨hids', hopen'⟩ := s.absorb_keeps o
      exact ⟨hids.trans hids', fun t ht => hopen' t (hopen t ht)⟩

/-- An action opens no task. -/
theorem mem_of_mem_openAfter (s : Swarm) {a : Action} {t : OpenTask} (h : t ∈ s.openAfter a) :
    t ∈ s.openTasks := by
  cases a with
  | abandon call => exact List.mem_of_mem_filter h
  | begin | run | cancel | pass => exact h

/-- A swarm with one more agent is orderly. -/
theorem Orderly.register {agent : AgentSpec} (hs : s.Orderly)
    (h : Blueprint.register s agent = .ok s') : s'.Orderly := by
  obtain ⟨roster, hroster, rfl⟩ := register_spec h
  obtain ⟨hids, hnew⟩ := ids_add hroster
  have hnodup : roster.ids.Nodup := by
    rw [hids]
    exact List.nodup_append.2 ⟨hs.ids_nodup, List.nodup_singleton _,
      fun id hid id' hid' he => hnew (List.mem_singleton.1 hid' ▸ he ▸ hid)⟩
  exact ⟨hnodup, hs.calls_lt⟩

theorem Step.orderly (h : Step s act trace told s') (hs : s.Orderly) : s'.Orderly := by
  cases h with
  | begin task algorithm =>
      refine ⟨hs.ids_nodup, fun t ht => ?_⟩
      rcases List.mem_append.1 ht with ht | ht
      · exact Nat.lt_succ_of_lt (hs.calls_lt t ht)
      · obtain rfl := List.mem_singleton.1 ht
        exact Nat.lt_succ_self _
  | @go a seen _ hbegin hstep =>
      obtain ⟨hworld, he⟩ := eq_of_step? hstep
      obtain ⟨hids, hopen⟩ := foldl_absorb_keeps (s.resume a s'.world) seen
      rw [← he] at hids hopen
      have hle := (World.step_of_step? hworld (World.lawful_anyLaw _ a)).nextCall_le
      exact ⟨hids ▸ hs.ids_nodup, fun t ht =>
        (hs.calls_lt t (s.mem_of_mem_openAfter (hopen t ht))).trans_le hle⟩
  | add _ hadd => exact hs.register hadd
  | setStatus _ hset =>
      obtain ⟨roster, hroster, rfl⟩ := setStatus_spec hset
      exact ⟨(ids_setStatus hroster).symm ▸ hs.ids_nodup, hs.calls_lt⟩

theorem Run.orderly (h : Run s acts trace told s') (hs : s.Orderly) : s'.Orderly := by
  induction h with
  | refl => exact hs
  | step _ hstep ih => exact hstep.orderly ih

/-- **What registering agents keeps holds of a swarm that was just built.** -/
theorem build_induction {b : Blueprint} {id : List Char} {P : List AgentSpec → Swarm → Prop}
    (h : b.build id = .ok s) (hvacant : ∀ x, P [] (b.vacant id x))
    (hregister : ∀ agents agent s₁ s₂, P agents s₁ → Blueprint.register s₁ agent = .ok s₂ →
      P (agents ++ [agent]) s₂) : P (b.variantAgents ++ b.agents) s := by
  have hfold : ∀ (rest agents : List AgentSpec) (s₀ : Swarm), P agents s₀ →
      rest.foldlM Blueprint.register s₀ = .ok s → P (agents ++ rest) s := by
    intro rest
    induction rest with
    | nil =>
        intro agents s₀ hP h
        obtain rfl := Except.ok.inj h
        rwa [List.append_nil]
    | cons agent rest ih =>
        intro agents s₀ hP h
        simp only [List.foldlM_cons, bind, Except.bind] at h
        split at h
        next => cases h
        next s₁ hs₁ =>
            rw [List.append_cons]
            exact ih _ s₁ (hregister agents agent s₀ s₁ hP hs₁) h
  simp only [Blueprint.build, bind, Except.bind] at h
  split at h
  next => cases h
  next x _ => exact hfold _ [] (b.vacant id x) (hvacant x) h

/-- A swarm that was just built is orderly, and nothing has happened in it. -/
theorem orderly_build {b : Blueprint} {id : List Char} (h : b.build id = .ok s) :
    s.Orderly ∧ ∃ x, s.world = .idle x := by
  refine build_induction (P := fun _ s => s.Orderly ∧ ∃ x, s.world = .idle x) h ?_ ?_
  · exact fun x => ⟨⟨List.nodup_nil, by simp [Blueprint.vacant]⟩, x, rfl⟩
  · rintro agents agent s₁ s₂ ⟨horderly, hworld⟩ hadd
    refine ⟨horderly.register hadd, ?_⟩
    obtain ⟨roster, _, rfl⟩ := register_spec hadd
    exact hworld

/-- **Reachable swarms are orderly**, and so are their executors. -/
theorem Reachable.orderly (h : s.Reachable) : s.Orderly ∧ ∃ x, World.Reachable x s.world := by
  obtain ⟨b, id, s₀, acts, trace, told, hbuild, hrun⟩ := h
  obtain ⟨horderly, x, hworld⟩ := orderly_build hbuild
  exact ⟨hrun.orderly horderly, x, trace, hworld ▸ hrun.world⟩

/-! ### Going along with the executor -/

/-- **A swarm goes along with its executor**: a run of the executor in which no task begins is one
of the swarm. -/
theorem exists_run {A : BackendLaw} {w' : World} (h : World.Run A s.world trace w')
    (hbegin : ∀ agents task prompts, .begin agents task prompts ∉ trace.map Prod.fst) :
    ∃ acts told s', Run s acts trace told s' ∧ s'.world = w' ∧ ∀ act ∈ acts, ∃ a, act = .go a := by
  induction h with
  | refl => exact ⟨[], [], s, .refl, rfl, by simp⟩
  | @step trace w₁ w₂ a seen _ _ hstep ih =>
      obtain ⟨acts, told, s₁, hrun, hworld, hacts⟩ := ih fun agents task prompts hmem =>
        hbegin agents task prompts (by simp [hmem])
      have hgo : s₁.step? a = some (seen.foldl absorb (s₁.resume a w₂), seen) := by
        simp [step?, hworld, hstep, resume]
      have hlast : Step s₁ (.go a) [(a, seen)] _ _ :=
        .go (fun agents task prompts he => hbegin agents task prompts (by simp [he])) hgo
      refine ⟨_, _, _, hrun.step hlast, by rw [world_foldl_absorb]; rfl, ?_⟩
      intro act hact
      rcases List.mem_append.1 hact with hact | hact
      · exact hacts act hact
      · exact ⟨a, List.mem_singleton.1 hact⟩

end Swarm

/-! ### A small swarm -/

namespace Sample

/-- A swarm of two agents that sends one request at a time. -/
def blueprint : Blueprint :=
  { Blueprint.named "sample" with
    strategy := strategy, prompts := some prompts, bus := some (.ofCapacity 8)
    agents := [⟨"a", "analyst", default, "p", defaultProfile⟩,
      ⟨"b", "analyst", default, "p", defaultProfile⟩] }

/-- The swarm of the blueprint. -/
def swarm : Swarm := (blueprint.build []).toOption.getD default

theorem build_blueprint : blueprint.build [] = .ok swarm := rfl

theorem reachable_swarm : swarm.Reachable := ⟨_, _, _, _, _, _, build_blueprint, .refl⟩

/-- The actors in an order in which a task comes to its end, when the backend responds at once. -/
def inTurn : List Actor :=
  [.caller 0, .invocation 0 0, .caller 0, .invocation 0 1, .caller 0]

end Sample

end AgentSwarm
