/-
**The events of the batches of a call.**

Batch after batch, observers are told that a batch is dispatched and then, when it is over, the
result of every agent in it.  The results of a batch that is under way have not been told, but they
are gathered in the order in which they will be; with these there is a block of events for every
batch so far, and only the last block may lack results, for the agents who are being asked.

Main definitions:

* `AgentSwarm.Block`, `AgentSwarm.eventsOfBlocks` — a batch with its results, and the events of
  batches one after another;
* `AgentSwarm.ToldInBlocks` — the invariant of a call and of what was told of it.

Main results:

* `AgentSwarm.ToldInBlocks.move` — **the moves of a call go on with its blocks**;
* `AgentSwarm.ToldInBlocks.blocks` — between batches complete blocks were told;
* `AgentSwarm.toldInBlocks_invariant` — the invariant along runs;
* `AgentSwarm.World.Sound.blocks_of_returned` — **the blocks of a call that returned**.
-/

import AgentSwarm.Proofs.Executor.Complete
import AgentSwarm.Proofs.Swarm.Runs

set_option relaxedAutoImplicit false
set_option autoImplicit false

namespace AgentSwarm

open World (endedIf collect openBatch batchAgents newCall)

/-! ### Blocks -/

/-- The agents of a batch and the results of some of them. -/
structure Block where
  ids : List String
  results : List (AgentResult Float)

/-- What is told of a batch. -/
def Block.events (k : Block) (index : Nat) : List TaskEvent :=
  .batchDispatched index k.ids.length :: k.results.map Swarm.resultEvent

/-- What is told of batches one after another. -/
def eventsOfBlocks (blocks : List Block) : List TaskEvent :=
  blocks.zipIdx.flatMap fun e => e.1.events e.2

@[simp] theorem eventsOfBlocks_nil : eventsOfBlocks [] = [] := rfl

theorem eventsOfBlocks_concat (blocks : List Block) (k : Block) :
    eventsOfBlocks (blocks ++ [k]) = eventsOfBlocks blocks ++ k.events blocks.length := by
  simp [eventsOfBlocks, List.zipIdx_append]

/-! ### The invariant -/

variable {A : BackendLaw} {x : Executor} {C : Prop} {now : Nat} {b : Brief} {c d : TaskCall}
  {log seen : List Occurrence} {batches : List (List Nat)}
  {final : List (String × AgentResult Float) → TaskEvent}

/-- What was told of a call: nothing yet, or blocks of which only the last lacks results, for the
agents who are being asked. -/
inductive ToldInBlocks (final : List (String × AgentResult Float) → TaskEvent) (b : Brief)
    (batches : List (List Nat)) (c : TaskCall) (log : List Occurrence) : Prop
  | fresh : log.filterMap (·.taskEvent? final) = [] → c.live = [] → c.gathered = [] →
      c.dispatched = 0 → c.remaining = batches → ToldInBlocks final b batches c log
  | under (past : List Block) (last : Block) :
      log.filterMap (·.taskEvent? final) ++ c.gathered.map Swarm.resultEvent =
        eventsOfBlocks (past ++ [last]) →
      (past ++ [last]).map (·.ids) ++ c.remaining.map b.idsAt = batches.map b.idsAt →
      c.dispatched = past.length + 1 →
      (∀ e ∈ past, (e.results.map (·.agentId)).Perm e.ids) →
      (last.results.map (·.agentId) ++ c.live.map (·.agent.id)).Perm last.ids →
      (∀ e ∈ past ++ [last], ∀ r ∈ e.results, r ∈ c.finished) → ToldInBlocks final b batches c log

namespace ToldInBlocks

/-- What changes neither who is asked nor what is gathered, and is not told, changes nothing. -/
theorem weaken (h : ToldInBlocks final b batches c log)
    (hlive : d.live.map (·.agent.id) = c.live.map (·.agent.id))
    (hgathered : d.gathered = c.gathered) (hdispatched : d.dispatched = c.dispatched)
    (hrem : d.remaining = c.remaining) (hfinished : ∀ r ∈ c.finished, r ∈ d.finished)
    (hquiet : seen.filterMap (·.taskEvent? final) = []) :
    ToldInBlocks final b batches d (log ++ seen) := by
  have hevents : (log ++ seen).filterMap (·.taskEvent? final) =
      log.filterMap (·.taskEvent? final) := by
    rw [List.filterMap_append, hquiet, List.append_nil]
  cases h with
  | fresh htold hnone hg hd hr =>
      have hlive' : d.live = [] := by simpa [hnone] using hlive
      exact .fresh (hevents.trans htold) hlive' (hgathered.trans hg) (hdispatched.trans hd)
        (hrem.trans hr)
  | under past last htold hbatches hcount hpast hlast hresults =>
      exact .under past last (by rw [hevents, hgathered, htold]) (by rw [hrem, hbatches])
        (hdispatched.trans hcount) hpast (by rw [hlive]; exact hlast)
        fun e he r hr => hfinished r (hresults e he r hr)

/-- An invocation that ends adds its result to the last block. -/
theorem settle {i : Invocation} {r : AgentResult Float} (h : ToldInBlocks final b batches c log)
    (hcovered : Covered b c) (hids : (b.agents.map (·.id)).Nodup)
    (hi : c.invocation? i.place = some i) (hr : r.agentId = i.agent.id) :
    ToldInBlocks final b batches (c.settle i r) (log ++ endedIf c.id i) := by
  have hevents : (log ++ endedIf c.id i).filterMap (·.taskEvent? final) =
      log.filterMap (·.taskEvent? final) := by
    unfold World.endedIf
    split <;> simp [Occurrence.taskEvent?]
  have hmem := TaskCall.mem_live_of_invocation? hi
  cases h with
  | fresh _ hnone _ _ _ => simp [hnone] at hmem
  | under past last htold hbatches hcount hpast hlast hresults =>
      refine .under past ⟨last.ids, last.results ++ [r]⟩ ?_ ?_ hcount hpast ?_ ?_
      · rw [hevents]
        simp only [TaskCall.settle, List.map_append, ← List.append_assoc, htold,
          eventsOfBlocks_concat, Block.events]
        simp
      · rw [List.map_append] at hbatches ⊢
        exact hbatches
      · have hperm := (perm_cons_filter_ne (hcovered.places_nodup hids) hmem).map (·.agent.id)
        refine List.Perm.trans ?_ hlast
        rw [List.perm_iff_count] at hperm ⊢
        intro id
        have hcount := hperm id
        simp only [TaskCall.settle, TaskCall.without, List.map_append, List.map_cons, List.map_nil,
          hr, List.count_append, List.count_cons, List.count_nil] at hcount ⊢
        omega
      · -- no result is lost, and the new one is gathered
        have hkept : ∀ e ∈ past ++ [last], ∀ r' ∈ e.results, r' ∈ (c.settle i r).finished := by
          intro e he r' hr'
          simp only [TaskCall.finished, TaskCall.settle, ← List.append_assoc]
          exact List.mem_append_left _ (hresults e he r' hr')
        intro e he r' hr'
        rcases List.mem_append.1 he with he | he
        · exact hkept e (List.mem_append_left _ he) r' hr'
        · obtain rfl := List.mem_singleton.1 he
          rcases List.mem_append.1 hr' with hr' | hr'
          · exact hkept last (by simp) r' hr'
          · obtain rfl := List.mem_singleton.1 hr'
            simp [TaskCall.finished, TaskCall.settle]

/-- The gathered results are told. -/
theorem collect (h : ToldInBlocks final b batches c log)
    (hfinished : ∀ r ∈ c.finished, r ∈ (collect c).finished) :
    ToldInBlocks final b batches (collect c)
      (log ++ c.gathered.map (Occurrence.reported c.id)) := by
  have hevents : (log ++ c.gathered.map (Occurrence.reported c.id)).filterMap (·.taskEvent? final) =
      log.filterMap (·.taskEvent? final) ++ c.gathered.map Swarm.resultEvent := by
    simp [List.filterMap_append, List.filterMap_map, Occurrence.taskEvent?]
  cases h with
  | fresh htold hnone hgathered hd hr =>
      exact .fresh (by rw [hevents, htold, hgathered]; rfl) hnone rfl hd hr
  | under past last htold hbatches hcount hpast hlast hresults =>
      refine .under past last ?_ hbatches hcount hpast hlast
        fun e he r hr => hfinished r (hresults e he r hr)
      rw [hevents, htold]
      exact List.append_nil _

/-- When nobody is being asked and nothing is gathered, complete blocks were told. -/
theorem blocks (h : ToldInBlocks final b batches c log) (hlive : c.live = [])
    (hgathered : c.gathered = []) :
    ∃ blocks : List Block, log.filterMap (·.taskEvent? final) = eventsOfBlocks blocks ∧
      blocks.map (·.ids) ++ c.remaining.map b.idsAt = batches.map b.idsAt ∧
      c.dispatched = blocks.length ∧
      (∀ e ∈ blocks, (e.results.map (·.agentId)).Perm e.ids) ∧
      ∀ e ∈ blocks, ∀ r ∈ e.results, r ∈ c.finished := by
  cases h with
  | fresh htold _ _ hd hr => exact ⟨[], htold, by rw [hr]; rfl, hd, by simp, by simp⟩
  | under past last htold hbatches hcount hpast hlast hresults =>
      refine ⟨past ++ [last], ?_, hbatches, by simp [hcount], ?_, hresults⟩
      · simpa [hgathered] using htold
      · intro e he
        rcases List.mem_append.1 he with he | he
        · exact hpast e he
        · obtain rfl := List.mem_singleton.1 he
          simpa [hlive] using hlast

/-- A batch that is dispatched begins a new block, with the results that it has at once. -/
theorem openNext {serial : Nat} {batch : List Nat} {rest : List (List Nat)}
    (h : ToldInBlocks final b batches c log) (hb : c.brief = b) (hlive : c.live = [])
    (hgathered : c.gathered = []) (hrem : c.remaining = batch :: rest)
    (hfinished : ∀ r ∈ c.finished, r ∈ (c.openNext now serial batch rest).finished) :
    ToldInBlocks final b batches (c.openNext now serial batch rest)
      (log ++ [.dispatched c.id c.dispatched ((batchAgents c batch).map fun m => m.2.id) now]) := by
  obtain ⟨blocks, htold, hbatches, hcount, hcomplete, hresults⟩ := h.blocks hlive hgathered
  have hbatch : b.idsAt batch = (batchAgents c batch).map fun m => m.2.id :=
    hb ▸ c.idsAt_brief batch
  refine .under blocks ⟨b.idsAt batch, (openBatch c now serial (batchAgents c batch)).1⟩
    ?_ ?_ (by rw [← hcount]; rfl) hcomplete ?_ ?_
  · rw [List.filterMap_append, htold, eventsOfBlocks_concat, ← hcount, hbatch]
    simp [Block.events, Occurrence.taskEvent?, TaskCall.openNext]
  · rw [← hbatches, hrem]
    simp [TaskCall.openNext]
  · rw [hbatch]
    exact perm_openBatch c now serial (batchAgents c batch)
  · intro e he r hr
    rcases List.mem_append.1 he with he | he
    · exact hfinished r (hresults e he r hr)
    · obtain rfl := List.mem_singleton.1 he
      exact List.mem_append_right _ hr

/-- **The moves of a call go on with its blocks.** -/
theorem move (h : ToldInBlocks final b batches c log) (hb : c.brief = b) (hcovered : Covered b c)
    (hids : (b.agents.map (·.id)).Nodup) (hm : TaskCall.Move A x now c seen d) :
    ToldInBlocks final b batches d (log ++ seen) := by
  have hfinished : ∀ r ∈ c.finished, r ∈ d.finished :=
    fun r hr => hm.finished_subset hcovered hids hr
  cases hm with
  | start | wait | send =>
      exact h.weaken (TaskCall.map_live_adjust fun _ => rfl) rfl rfl rfl hfinished rfl
  | pause => exact h.weaken rfl rfl rfl rfl hfinished rfl
  | finish hi _ => exact h.settle hcovered hids hi (Executor.agentId_resultOf ..)
  | report => exact h.collect hfinished
  | @dispatch batch rest serial hlive hgathered hrem =>
      exact h.openNext hb hlive hgathered hrem hfinished

/-- A call that begins has told nothing. -/
theorem newCall (w : World) (agents : List Agent) (task : Task) (prompts : PromptBuilder) :
    ToldInBlocks final b (w.executor.batches agents) (World.newCall w agents task prompts) [] :=
  .fresh rfl rfl rfl rfl rfl

end ToldInBlocks

/-- **What was told of a call are its blocks so far**, whatever it does, also when it is cancelled. -/
theorem toldInBlocks_invariant (A : BackendLaw) (x : Executor) (T : Nat → Prop) (C : Prop)
    (final : List (String × AgentResult Float) → TaskEvent) (batches : List (List Nat))
    (hids : (b.agents.map (·.id)).Nodup) :
    CourseInvariant A x T C fun c log =>
      c.brief = b ∧ Covered b c ∧ ToldInBlocks final b batches c log where
  move _ h hm := ⟨hm.brief_eq.trans h.1, h.2.1.move hids h.1 hm, h.2.2.move h.1 h.2.1 hids hm⟩
  cancel {c log} _ h := by
    have hinBlocks : ToldInBlocks final b batches { c with isCancelled := true } (log ++ []) :=
      h.2.2.weaken rfl rfl rfl rfl (fun _ hr => hr) rfl
    rw [List.append_nil] at hinBlocks
    exact ⟨h.1, h.2.1.cancel, hinBlocks⟩

/-- **The blocks of a call that returned**: complete ones, one for every batch, with the results that
are returned, and at last the event of all of them. -/
theorem World.Sound.blocks_of_returned {w w' : World} {agents : List Agent} {task : Task}
    {prompts : PromptBuilder} {trace : Trace} {results : List (String × AgentResult Float)}
    {time : Nat} (hw : w.Sound) (hids : (agents.map (·.id)).Nodup)
    (hrun : World.Run A (w.beginCall agents task prompts) trace w')
    (hret : .returned w.nextCall results time ∈ trace.seen)
    (final : List (String × AgentResult Float) → TaskEvent) :
    ∃ blocks : List Block,
      (seenOf w.nextCall trace.seen).filterMap (·.taskEvent? final) =
        eventsOfBlocks blocks ++ [final results] ∧
      blocks.map (·.ids) =
        (w.executor.batches agents).map (Brief.mk w.nextCall agents task prompts).idsAt ∧
      ∀ e ∈ blocks, (e.results.map (·.agentId)).Perm e.ids ∧
        ∀ r ∈ e.results, results.lookup r.agentId = some r := by
  obtain ⟨c, log, ⟨_, hcovered, hinBlocks⟩, hlive, hgathered, hrem, rfl, hlog⟩ := hw.returned
    (toldInBlocks_invariant A w.executor (fun _ => True) True final (w.executor.batches agents)
      (b := ⟨w.nextCall, agents, task, prompts⟩) hids)
    ⟨rfl, (accounted_newCall A w.executor True w agents task prompts).covered,
      ToldInBlocks.newCall w agents task prompts⟩ hrun (fun _ => trivial) hret
  obtain ⟨blocks, htold, hbatches, _, hcomplete, hresults⟩ := hinBlocks.blocks hlive hgathered
  refine ⟨blocks, ?_, by simpa [hrem] using hbatches, fun e he => ⟨hcomplete e he, ?_⟩⟩
  · rw [hlog, List.filterMap_append, htold]
    rfl
  · intro r hr
    exact hcovered.ascending.lookup_eq_some (hcovered.mem_results hgathered (hresults e he r hr))

end AgentSwarm
