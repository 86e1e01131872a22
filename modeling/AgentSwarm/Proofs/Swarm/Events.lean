/-
**The events of a task.**

From its start to its end, the observers of a swarm are told of a task in one order: it starts with
all agents of the roster, then batch after batch is dispatched, each followed by what became of its
agents, and at last there is a consensus or none.  What is told agrees with the report.  Other tasks
may be under way all the time; only the ids of their tasks must be others.

Main definitions:

* `AgentSwarm.TellsOf`, `AgentSwarm.Announces` — the event of a result, and of a consensus;
* `AgentSwarm.BatchEvents`, `AgentSwarm.TaskEvents` — the events of a batch, and of a task.

Main results:

* `AgentSwarm.TaskEvents.length_eq` — how many events there are;
* `AgentSwarm.Swarm.Reachable.event_stream` — **what observers are told of a task**.
-/

import AgentSwarm.Proofs.Consensus.Verdict
import AgentSwarm.Proofs.Swarm.TaskProgress
import Mathlib.Data.List.Forall2

set_option relaxedAutoImplicit false
set_option autoImplicit false

namespace AgentSwarm

/-! ### What is to be told -/

/-- The event that tells of a result. -/
inductive TellsOf (r : AgentResult Float) : TaskEvent → Prop
  | completed {answer : Members Float} : r.outcome = .success answer →
      TellsOf r (.agentCompleted r.agentId r.confidence r.metrics.executionMillis)
  | failed {error : String} {kind : FailureKind} : r.outcome = .failure error kind →
      TellsOf r (.agentFailed r.agentId kind.name error)

/-- The event that tells of the consensus in a report. -/
inductive Announces (report : TaskReport) : TaskEvent → Prop
  | reached {value : JsonOf Float} : report.consensus.value = some value →
      Announces report (.consensusReached report.algorithm.name report.consensus.confidence
        report.consensus.agreement report.consensus.participants.length)
  | failed {reason : String} : report.consensus.value = none →
      report.consensus.error? = some reason →
      Announces report (.consensusFailed report.algorithm.name reason)

/-- The events of a batch of places: it is dispatched, and then every one of its agents, in some
order, has one event, which tells of its result in the report. -/
inductive BatchEvents (agents : List Agent) (report : TaskReport) (index : Nat)
    (batch : List Nat) : List TaskEvent → Prop
  | intro {results : List (AgentResult Float)} {told : List TaskEvent} :
      (results.map fun r => some r.agentId).Perm
        (batch.map fun place => (agents[place]?).map (·.id)) →
      (∀ r ∈ results, report.results.lookup r.agentId = some r) →
      List.Forall₂ TellsOf results told →
      BatchEvents agents report index batch (.batchDispatched index batch.length :: told)

/-- The events of a task that is over: its start, the events of all batches of the plan in order,
and the consensus. -/
inductive TaskEvents (agents : List Agent) (strategy : Strategy) (task : Task)
    (report : TaskReport) : List TaskEvent → Prop
  | intro {batches : List (List TaskEvent)} {final : TaskEvent} :
      List.Forall₂ (fun e told => BatchEvents agents report e.2 e.1 told)
        (strategy.plan (agents.map (·.partition))).zipIdx batches →
      Announces report final →
      TaskEvents agents strategy task report
        (.started task.taskType agents.length strategy.name :: batches.flatten ++ [final])

variable {agents : List Agent} {report : TaskReport} {told : List TaskEvent}

/-- A batch has one event more than agents. -/
theorem BatchEvents.length_eq {index : Nat} {batch : List Nat}
    (h : BatchEvents agents report index batch told) : told.length = 1 + batch.length := by
  cases h with
  | intro hperm _ htold =>
      have hagents := hperm.length_eq
      rw [List.length_map, List.length_map] at hagents
      rw [List.length_cons, ← htold.length_eq, hagents, Nat.add_comm]

/-- **A task has two events more than batches and agents.** -/
theorem TaskEvents.length_eq {strategy : Strategy} {task : Task}
    (h : TaskEvents agents strategy task report told) :
    told.length = 2 + (strategy.plan (agents.map (·.partition))).length + agents.length := by
  have key : ∀ {plan : List (List Nat × Nat)} {batches : List (List TaskEvent)},
      List.Forall₂ (fun e told => BatchEvents agents report e.2 e.1 told) plan batches →
      batches.flatten.length = plan.length + (plan.map Prod.fst).flatten.length := by
    intro plan batches hall
    induction hall with
    | nil => rfl
    | cons hfirst _ ih =>
        simp only [List.flatten_cons, List.length_append, List.map_cons, List.length_cons, ih,
          hfirst.length_eq]
        omega
  cases h with
  | intro hall _ =>
      have hplan := (strategy.perm_flatten_plan (agents.map (·.partition))).length_eq
      rw [List.length_range, List.length_map] at hplan
      have hbatches := key hall
      rw [List.length_zipIdx, List.zipIdx_map_fst, hplan] at hbatches
      rw [List.length_append, List.length_cons, hbatches, List.length_singleton]
      omega

/-! ### What is told -/

/-- The event of a result tells of it. -/
theorem tellsOf_resultEvent (r : AgentResult Float) : TellsOf r (Swarm.resultEvent r) := by
  unfold Swarm.resultEvent AgentResult.failure?
  cases houtcome : r.outcome with
  | success answer => exact .completed houtcome
  | failure error kind => exact .failed houtcome

/-- The event of the results of a task tells of the consensus in its report. -/
theorem Swarm.Reported.announces {key : VoteKey Float} {t : OpenTask}
    {results : List (String × AgentResult Float)} (h : Swarm.Reported key t results report) :
    Announces report (Swarm.finalOf key t results) := by
  rw [Swarm.finalOf, ← h.consensus, ← h.algorithm, Swarm.consensusEvent]
  cases hvalue : report.consensus.value with
  | some value => exact .reached hvalue
  | none =>
      obtain ⟨reason, hreason⟩ := exists_error_of_aggregate (h.consensus ▸ hvalue)
      rw [← h.consensus] at hreason
      simp only [hreason, Option.getD_some]
      exact .failed hvalue hreason

/-- The ids at places that exist. -/
theorem Brief.map_some_idsAt (b : Brief) {places : List Nat}
    (h : ∀ p ∈ places, p < b.agents.length) :
    (b.idsAt places).map some = places.map fun place => (b.agents[place]?).map (·.id) := by
  induction places with
  | nil => rfl
  | cons p rest ih =>
      obtain ⟨agent, hp⟩ : ∃ agent, b.agents[p]? = some agent :=
        ⟨_, List.getElem?_eq_getElem (h p (by simp))⟩
      have hrest := ih fun q hq => h q (List.mem_cons_of_mem _ hq)
      rw [List.map_cons, ← hrest, hp]
      simp [Brief.idsAt, hp]

/-- A complete block has the events of its batch. -/
theorem Block.batchEvents {b : Brief} {k : Block} {batch : List Nat} (index : Nat)
    (hplaces : ∀ p ∈ batch, p < b.agents.length) (hids : k.ids = b.idsAt batch)
    (hperm : (k.results.map (·.agentId)).Perm k.ids)
    (hentries : ∀ r ∈ k.results, report.results.lookup r.agentId = some r) :
    BatchEvents b.agents report index batch (k.events index) := by
  have hsome := b.map_some_idsAt hplaces
  have hlength : k.ids.length = batch.length := by
    simpa [hids] using congrArg List.length hsome
  rw [Block.events, hlength]
  refine .intro ?_ hentries (List.forall₂_map_right_iff.2 (List.forall₂_same.2 fun r _ =>
    tellsOf_resultEvent r))
  have h := hperm.map some
  rwa [hids, hsome, List.map_map] at h

/-- **Complete blocks of all batches are the events of a task.** -/
theorem taskEvents_of_blocks {b : Brief} {strategy : Strategy} {task : Task} {blocks : List Block}
    {final : TaskEvent}
    (hids : blocks.map (·.ids) = (strategy.plan (b.agents.map (·.partition))).map b.idsAt)
    (hblocks : ∀ e ∈ blocks, (e.results.map (·.agentId)).Perm e.ids ∧
      ∀ r ∈ e.results, report.results.lookup r.agentId = some r)
    (hfinal : Announces report final) :
    TaskEvents b.agents strategy task report
      (.started task.taskType b.agents.length strategy.name ::
        (eventsOfBlocks blocks ++ [final])) := by
  have hplaces : ∀ batch ∈ strategy.plan (b.agents.map (·.partition)),
      ∀ p ∈ batch, p < b.agents.length := by
    intro batch hbatch p hp
    have hmem := (strategy.perm_flatten_plan _).subset (List.mem_flatten.2 ⟨batch, hbatch, hp⟩)
    simpa using hmem
  rw [eventsOfBlocks, List.flatMap_def, ← List.cons_append]
  refine .intro (List.forall₂_iff_get.2 ⟨?_, fun i hi hi' => ?_⟩) hfinal
  · simpa using (congrArg List.length hids).symm
  · simp only [List.get_eq_getElem, List.getElem_map, List.getElem_zipIdx]
    simp only [List.length_zipIdx, List.length_map] at hi hi'
    obtain ⟨hperm, hentries⟩ := hblocks blocks[i] (List.getElem_mem hi')
    refine Block.batchEvents _ (hplaces _ (List.getElem_mem hi)) ?_ hperm hentries
    have hget := List.getElem_of_eq hids (i := i) (by simpa using hi')
    simpa using hget

namespace Swarm

variable {s s' : Swarm} {b : EventBus} {task : Task} {algorithm : Option Algorithm}
  {acts : List Act} {trace : Trace} {events : List Event}
  {results : List (String × AgentResult Float)} {time : Nat}

/-- The task that begins. -/
def opening (s : Swarm) (task : Task) (algorithm : Option Algorithm) : OpenTask :=
  ⟨s.world.nextCall, task.id, algorithm.getD s.defaultAlgorithm, s.world.now⟩

/-- A task that begins is under way. -/
theorem Orderly.follows_beginTask (h : s.Orderly) (hfree : ∀ t ∈ s.openTasks, t.taskId ≠ task.id)
    (algorithm : Option Algorithm) :
    (s.beginTask task algorithm).1.Follows s.voteKey (s.opening task algorithm) := by
  refine ⟨rfl, ?_, fun u hu hid => ?_⟩
  · change List.find? _ (s.openTasks ++ [s.opening task algorithm]) = _
    have hnone : s.openTasks.find? (·.call == (s.opening task algorithm).call) = none := by
      rw [List.find?_eq_none]
      intro t ht
      simpa [opening] using (h.calls_lt t ht).ne
    rw [List.find?_append, hnone]
    simp
  · rcases List.mem_append.1 hu with hu | hu
    · exact absurd hid (hfree u hu)
    · obtain rfl := List.mem_singleton.1 hu
      rfl

/-- **What observers are told of a task**, from its start to its end.  The bus gets to publish it, so
it is counted there, and it is kept and received as far as there is room. -/
theorem Reachable.event_stream (hs : s.Reachable) (hbus : s.bus = some b)
    (hfree : ∀ t ∈ s.openTasks, t.taskId ≠ task.id)
    (hrun : Run (s.beginTask task algorithm).1 acts trace events s')
    (hothers : ∀ other choice, .begin other choice ∈ acts → other.id ≠ task.id)
    (hret : .returned s.world.nextCall results time ∈ trace.seen) :
    s'.bus = some (b.publishAll (s.startEvent task :: events)) ∧
    b.Carries (s.startEvent task :: events) (b.publishAll (s.startEvent task :: events)) ∧
    ∃ report, s'.reports.lookup s.world.nextCall = some report ∧ report.taskId = task.id ∧
      report.results = results ∧
      TaskEvents s.roster.agents s.strategy task report
        (eventsOf task.id (s.startEvent task :: events)) ∧
      (eventsOf task.id (s.startEvent task :: events)).length =
        2 + (s.strategy.plan (s.roster.agents.map (·.partition))).length +
          s.roster.agents.length := by
  obtain ⟨horderly, x, hworld⟩ := hs.orderly
  have hsound := hworld.sound
  -- the task is told what is seen of its call
  obtain ⟨hprogress, hevents⟩ := hrun.taskProgress
    (.under (horderly.follows_beginTask hfree algorithm) (by simp))
    (hsound.beginCall s.roster.agents task s.prompts) (Nat.lt_succ_self s.world.nextCall) hothers
  -- and what is seen of its call are the events of its blocks
  obtain ⟨blocks, hseen, hids, hblocks⟩ := hsound.blocks_of_returned horderly.ids_nodup hrun.world
    hret (finalOf s.voteKey (s.opening task algorithm))
  have hstart : eventsOf task.id (s.startEvent task :: events) =
      .started task.taskType s.roster.agents.length s.strategy.name ::
        (eventsOfBlocks blocks ++ [finalOf s.voteKey (s.opening task algorithm) results]) := by
    rw [← List.singleton_append, eventsOf_append, startEvent, eventsOf_task, if_pos rfl, ← hseen]
    exact congrArg _ hevents
  obtain ⟨report, hlookup, hreported⟩ : ∃ report,
      s'.reports.lookup s.world.nextCall = some report ∧
        Reported s.voteKey (s.opening task algorithm) results report := by
    cases hprogress with
    | under _ hnone => exact absurd hret (hnone results time)
    | done _ _ hreport => exact hreport results time hret
  have htold : TaskEvents s.roster.agents s.strategy task report
      (eventsOf task.id (s.startEvent task :: events)) := by
    rw [hstart]
    refine taskEvents_of_blocks (b := ⟨s.world.nextCall, s.roster.agents, task, s.prompts⟩) hids ?_
      hreported.announces
    rwa [hreported.results]
  refine ⟨?_, b.carries_publishAll _, report, hlookup, hreported.taskId, hreported.results, htold,
    htold.length_eq⟩
  rw [hrun.bus, show (s.beginTask task algorithm).1.bus = s.bus.map (·.publish (s.startEvent task))
    from rfl, hbus]
  rfl

/-- Two agents that are asked one after the other: a task has six events. -/
theorem Reachable.event_stream_met : ∃ events report,
    TaskEvents Sample.swarm.roster.agents Sample.strategy Sample.task report
      (eventsOf "t" (Sample.swarm.startEvent Sample.task :: events)) ∧
    (eventsOf "t" (Sample.swarm.startEvent Sample.task :: events)).length = 6 := by
  let begun := (Sample.swarm.beginTask Sample.task none).1
  have hworld : World.Run World.anyLaw begun.world
      (begun.world.follow default Sample.inTurn).1 _ :=
    World.run_follow (fun _ _ => trivial) Sample.inTurn (by decide +kernel)
  have hreturned : ∃ results time, .returned 0 results time ∈
      (begun.world.follow default Sample.inTurn).1.seen := exists_returned (by decide +kernel)
  obtain ⟨results, time, hret⟩ := hreturned
  obtain ⟨acts, events, s', hrun, _, hacts⟩ := exists_run hworld fun agents task prompts hmem => by
    obtain ⟨a, ha⟩ := World.run_of_mem_follow _ hmem
    cases ha
  have hstream := Reachable.event_stream Sample.reachable_swarm
    (b := Sample.swarm.bus.getD default) rfl
    (fun t ht => absurd ht (List.not_mem_nil (a := t))) hrun
    (fun other choice hmem => by
      obtain ⟨a, ha⟩ := hacts _ hmem
      cases ha) hret
  obtain ⟨_, _, report, _, _, _, htold, hlength⟩ := hstream
  have hplan : (Sample.strategy.plan ["p", "p"]).length = 2 := by
    simp [Strategy.plan, Sample.strategy, chunks, List.range_succ]
  exact ⟨events, report, htold, hlength.trans (congrArg (2 + · + 2) hplan)⟩

end Swarm

end AgentSwarm
