/-
**Every agent is accounted for.**

While a call is under way each of its agents is in exactly one place: its result is there, it is
being asked, or its batch is still to come.  The moves of a call only carry agents from one place to
the next, so when nothing is left to do there is one result for every agent.  The invariant also
remembers how each result came about, which requests were sent, and which invocations have ended.

Main definitions:

* `AgentSwarm.Brief` — what a call was begun with;
* `AgentSwarm.Explains` — how a result came about;
* `AgentSwarm.Covered`, `AgentSwarm.Explained`, `AgentSwarm.Logged`, `AgentSwarm.Accounted` — the
  invariant and its three parts.

Main results:

* `AgentSwarm.Covered.move`, `AgentSwarm.Explained.move`, `AgentSwarm.Logged.move` — the parts are
  kept by the moves of a call;
* `AgentSwarm.accounted_invariant` — **so is the invariant**.
-/

import AgentSwarm.Proofs.Executor.Course
import AgentSwarm.Proofs.Members

set_option relaxedAutoImplicit false
set_option autoImplicit false

namespace AgentSwarm

open World (requestOf endedIf collect openBatch batchAgents prepare)

/-! ### What a call was begun with -/

/-- What a call was begun with. -/
structure Brief where
  id : Nat
  agents : List Agent
  task : Task
  prompts : PromptBuilder

/-- The request for an agent with a prompt. -/
def Brief.request (b : Brief) (agent : Agent) (prompt : String) : Request :=
  ⟨agent.id, agent.profile, prompt, b.task.context⟩

/-- The ids of the agents at places. -/
def Brief.idsAt (b : Brief) (places : List Nat) : List String :=
  places.filterMap fun place => (b.agents[place]?).map (·.id)

namespace TaskCall

/-- What the call was begun with. -/
def brief (c : TaskCall) : Brief := ⟨c.id, c.agents, c.task, c.prompts⟩

/-- The results that are there, in earlier batches and in this one. -/
def finished (c : TaskCall) : List (AgentResult Float) := c.results.map Prod.snd ++ c.gathered

/-- The ids of the agents at places. -/
def idsAt (c : TaskCall) (places : List Nat) : List String :=
  (batchAgents c places).map fun m => m.2.id

theorem idsAt_brief (c : TaskCall) (places : List Nat) : c.brief.idsAt places = c.idsAt places := by
  simp [Brief.idsAt, idsAt, batchAgents, List.map_filterMap, Function.comp_def, brief]

/-- The ids of the agents that are being asked, or whose batch is still to come. -/
def pendingIds (c : TaskCall) : List String :=
  c.live.map (·.agent.id) ++ c.idsAt c.remaining.flatten

end TaskCall

variable {A : BackendLaw} {x : Executor} {C : Prop} {now : Nat} {b : Brief} {c d : TaskCall}
  {i : Invocation} {log seen : List Occurrence}

/-- No move changes what a call was begun with. -/
theorem TaskCall.Move.brief_eq (h : TaskCall.Move A x now c seen d) : d.brief = c.brief := by
  cases h <;> rfl

/-- The result of an invocation is filed under its agent. -/
theorem Executor.agentId_resultOf (x : Executor) (agent : Agent) (serial startedAt now : Nat)
    (ending : Ending) : (x.resultOf agent serial startedAt now ending).agentId = agent.id := by
  rcases ending with (_ | _ | _) | _ | _ <;> rfl

/-! ### Dispatching a batch -/

/-- An invocation as it was prepared: its agent stands at its place, is active and has a prompt. -/
structure Prepared (b : Brief) (i : Invocation) : Prop where
  place : b.agents[i.place]? = some i.agent
  active : i.agent.isActive = true
  prompt : b.prompts i.agent b.task = some i.prompt

theorem Prepared.mem (h : Prepared b i) : i.agent ∈ b.agents := List.mem_of_getElem? h.place

theorem mem_batchAgents {batch : List Nat} {m : Nat × Agent} (h : m ∈ batchAgents c batch) :
    c.agents[m.1]? = some m.2 := by
  obtain ⟨place, _, hm⟩ := List.mem_filterMap.1 h
  obtain ⟨agent, ha, rfl⟩ := Option.map_eq_some_iff.1 hm
  exact ha

theorem idsAt_append (c : TaskCall) (places more : List Nat) :
    c.idsAt (places ++ more) = c.idsAt places ++ c.idsAt more := by
  simp [TaskCall.idsAt, batchAgents]

/-- At all places are all agents. -/
theorem idsAt_range (c : TaskCall) : c.idsAt (List.range c.agents.length) = c.agents.map (·.id) := by
  have key : ∀ agents : List Agent, ((List.range agents.length).filterMap fun place =>
      (agents[place]?).map fun a => a.id) = agents.map (·.id) := by
    intro agents
    induction agents with
    | nil => rfl
    | cons a rest ih =>
        rw [List.length_cons, List.range_succ_eq_map]
        simpa [List.filterMap_map, Function.comp_def] using ih
  simpa [TaskCall.idsAt, batchAgents, List.map_filterMap, Function.comp_def] using key c.agents

/-- **A batch gives every agent a result at once or an invocation.** -/
theorem perm_openBatch (c : TaskCall) (now serial : Nat) (members : List (Nat × Agent)) :
    ((openBatch c now serial members).1.map (·.agentId) ++
      (openBatch c now serial members).2.map (·.agent.id)).Perm (members.map fun m => m.2.id) := by
  induction members generalizing serial with
  | nil => exact .refl _
  | cons member rest ih =>
      obtain ⟨place, agent⟩ := member
      cases hp : prepare c now agent with
      | error result =>
          have hid : result.agentId = agent.id := by
            unfold prepare at hp
            split at hp
            · cases hp
              rfl
            · split at hp
              · cases hp
              · cases hp
                rfl
          simp only [openBatch, hp, List.map_cons, hid, List.cons_append]
          exact (ih serial).cons agent.id
      | ok prompt =>
          simp only [openBatch, hp, List.map_cons]
          exact List.perm_middle.trans ((ih (serial + 1)).cons agent.id)

/-- The invocations of a batch are prepared. -/
theorem prepared_of_openBatch {serial : Nat} {members : List (Nat × Agent)}
    (hm : ∀ m ∈ members, c.agents[m.1]? = some m.2) :
    ∀ i ∈ (openBatch c now serial members).2, Prepared c.brief i := by
  induction members generalizing serial with
  | nil => simp [openBatch]
  | cons member rest ih =>
      obtain ⟨place, agent⟩ := member
      have hrest := fun m h => hm m (List.mem_cons_of_mem _ h)
      cases hp : prepare c now agent with
      | error result => simpa only [openBatch, hp] using ih hrest
      | ok prompt =>
          simp only [openBatch, hp]
          intro i hi
          rcases List.mem_cons.1 hi with rfl | hi
          · unfold prepare at hp
            split at hp
            · cases hp
            next hactive =>
                split at hp
                next prompt' hprompt =>
                    cases hp
                    exact ⟨hm (place, agent) (by simp), by simpa using hactive, hprompt⟩
                · cases hp
          · exact ih hrest i hi

/-! ### Agents -/

/-- Every agent has a result, is being asked, or is in a batch to come; results are filed under
their agents. -/
structure Covered (b : Brief) (c : TaskCall) : Prop where
  ids : (c.finished.map (·.agentId) ++ c.pendingIds).Perm (b.agents.map (·.id))
  keys : ∀ e ∈ c.results, e.1 = e.2.agentId
  ascending : Ascending c.results
  prepared : ∀ i ∈ c.live, Prepared b i

namespace Covered

/-- The agents that are there, each once. -/
theorem nodup (h : Covered b c) (hids : (b.agents.map (·.id)).Nodup) :
    (c.finished.map (·.agentId) ++ c.pendingIds).Nodup := h.ids.nodup_iff.2 hids

theorem live_nodup (h : Covered b c) (hids : (b.agents.map (·.id)).Nodup) :
    (c.live.map (·.agent.id)).Nodup :=
  (List.nodup_append.1 (List.nodup_append.1 (h.nodup hids)).2.1).1

/-- Agents with ids of their own stand at places of their own. -/
theorem places_nodup (h : Covered b c) (hids : (b.agents.map (·.id)).Nodup) :
    (c.live.map (·.place)).Nodup := by
  -- the place of an invocation determines its agent, and agents have ids of their own
  have hmap : c.live.map (fun i => some i.agent.id) =
      (c.live.map (·.place)).map fun p => (b.agents[p]?).map (·.id) := by
    rw [List.map_map]
    refine List.map_congr_left ?_
    intro i hi
    simp [(h.prepared i hi).place]
  refine List.Nodup.of_map (fun p => (b.agents[p]?).map (·.id)) ?_
  rw [← hmap]
  have hnodup := h.live_nodup hids
  rw [show c.live.map (fun i => some i.agent.id) = (c.live.map (·.agent.id)).map some by simp]
  exact hnodup.map (Option.some_injective _)

/-- Who is being asked has no result yet. -/
theorem not_finished (h : Covered b c) (hids : (b.agents.map (·.id)).Nodup) (hi : i ∈ c.live) :
    i.agent.id ∉ c.finished.map (·.agentId) := by
  intro hmem
  have hdisjoint := (List.nodup_append.1 (h.nodup hids)).2.2
  exact hdisjoint _ hmem _ (List.mem_append_left _ (List.mem_map.2 ⟨i, hi, rfl⟩)) rfl

/-- Two invocations of one agent are the same. -/
theorem eq_of_id_eq (h : Covered b c) (hids : (b.agents.map (·.id)).Nodup) {j : Invocation}
    (hi : i ∈ c.live) (hj : j ∈ c.live) (he : j.agent.id = i.agent.id) : j = i :=
  List.inj_on_of_nodup_map (h.live_nodup hids) hj hi he

/-- Cancelling a call loses no agent. -/
theorem cancel (h : Covered b c) : Covered b { c with isCancelled := true } :=
  ⟨h.ids, h.keys, h.ascending, h.prepared⟩

/-- An invocation may be changed as long as it asks the same. -/
theorem adjust {place : Nat} {f : Invocation → Invocation} (h : Covered b c)
    (hplace : ∀ j, (f j).place = j.place) (hagent : ∀ j, (f j).agent = j.agent)
    (hprompt : ∀ j, (f j).prompt = j.prompt) : Covered b (c.adjust place f) where
  ids := by
    have hlive : (c.adjust place f).live.map (·.agent.id) = c.live.map (·.agent.id) :=
      TaskCall.map_live_adjust fun j => by rw [hagent]
    have hids := h.ids
    simp only [TaskCall.pendingIds] at hids ⊢
    rw [hlive]
    exact hids
  keys := h.keys
  ascending := h.ascending
  prepared := by
    intro j hj
    obtain ⟨j', hj', rfl⟩ := List.mem_map.1 hj
    have hprepared := h.prepared j' hj'
    split
    · exact ⟨by rw [hplace, hagent]; exact hprepared.place, by rw [hagent]; exact hprepared.active,
        by rw [hagent, hprompt]; exact hprepared.prompt⟩
    · exact hprepared

/-- An invocation that ends leaves its result. -/
theorem settle {r : AgentResult Float} (h : Covered b c) (hids : (b.agents.map (·.id)).Nodup)
    (hi : c.invocation? i.place = some i) (hr : r.agentId = i.agent.id) :
    Covered b (c.settle i r) where
  ids := by
    have hperm := (perm_cons_filter_ne (h.places_nodup hids)
      (TaskCall.mem_live_of_invocation? hi)).map (·.agent.id)
    refine List.Perm.trans ?_ h.ids
    rw [List.perm_iff_count] at hperm ⊢
    intro id
    have hcount := hperm id
    simp only [TaskCall.finished, TaskCall.pendingIds, TaskCall.settle, TaskCall.without,
      TaskCall.idsAt, batchAgents, List.map_append, List.map_cons, List.map_nil, hr,
      List.count_append, List.count_cons, List.count_nil] at hcount ⊢
    omega
  keys := h.keys
  ascending := h.ascending
  prepared := fun j hj => h.prepared j (TaskCall.mem_live_without.1 hj).1

/-- The results of a batch are put to the earlier ones. -/
theorem foldl_insertMember {gathered : List (AgentResult Float)}
    {results : List (String × AgentResult Float)} (hkeys : ∀ e ∈ results, e.1 = e.2.agentId)
    (hascending : Ascending results)
    (hnodup : (results.map (fun e => e.2.agentId) ++ gathered.map (·.agentId)).Nodup) :
    (∀ e ∈ gathered.foldl (fun rs r => insertMember r.agentId r rs) results, e.1 = e.2.agentId) ∧
      Ascending (gathered.foldl (fun rs r => insertMember r.agentId r rs) results) ∧
      ((gathered.foldl (fun rs r => insertMember r.agentId r rs) results).map Prod.snd).Perm
        (results.map Prod.snd ++ gathered) := by
  induction gathered generalizing results with
  | nil => exact ⟨hkeys, hascending, by simp⟩
  | cons r rest ih =>
      -- no earlier result has the id, so the insertion replaces none
      have hnew : r.agentId ∉ results.map Prod.fst := by
        intro hmem
        obtain ⟨e, he, hid⟩ := List.mem_map.1 hmem
        exact (List.nodup_append.1 hnodup).2.2 _ (List.mem_map.2 ⟨e, he, rfl⟩) r.agentId (by simp)
          ((hkeys e he).symm.trans hid)
      have hperm : (insertMember r.agentId r results).Perm ((r.agentId, r) :: results) :=
        perm_insertMember hnew
      have hkeysNew : ∀ e ∈ insertMember r.agentId r results, e.1 = e.2.agentId := by
        intro e he
        rcases List.mem_cons.1 (hperm.subset he) with rfl | he
        · rfl
        · exact hkeys e he
      rw [List.foldl_cons]
      obtain ⟨hkeys', hascending', hperm'⟩ := ih hkeysNew hascending.insertMember
        (by
          refine (List.Perm.nodup_iff ?_).2 hnodup
          rw [List.map_cons]
          exact ((hperm.map _).append_right _).trans List.perm_middle.symm)
      refine ⟨hkeys', hascending', hperm'.trans ?_⟩
      exact ((hperm.map _).append_right _).trans List.perm_middle.symm

/-- The results are collected. -/
theorem collect (h : Covered b c) (hids : (b.agents.map (·.id)).Nodup) :
    Covered b (collect c) ∧ (World.collect c).finished.Perm c.finished := by
  have hnodup := (List.nodup_append.1 (h.nodup hids)).1
  simp only [TaskCall.finished, List.map_append, List.map_map] at hnodup
  obtain ⟨hkeys, hascending, hperm⟩ := foldl_insertMember h.keys h.ascending hnodup
  have hfinished : (World.collect c).finished.Perm c.finished := by
    simpa only [TaskCall.finished, World.collect, List.append_nil] using hperm
  exact ⟨⟨((hfinished.map _).append_right _).trans h.ids, hkeys, hascending, h.prepared⟩, hfinished⟩

/-- A batch is dispatched. -/
theorem openNext {serial : Nat} {batch : List Nat} {rest : List (List Nat)} (h : Covered b c)
    (hb : c.brief = b) (hlive : c.live = []) (hgathered : c.gathered = [])
    (hrem : c.remaining = batch :: rest) : Covered b (c.openNext now serial batch rest) where
  ids := by
    refine List.Perm.trans ?_ h.ids
    -- the ids are only moved about, so every id is counted
    have hperm := perm_openBatch c now serial (batchAgents c batch)
    rw [List.perm_iff_count] at hperm ⊢
    intro id
    have hcount := hperm id
    have happend := congrArg (List.count id) (idsAt_append c batch rest.flatten)
    simp only [TaskCall.finished, TaskCall.pendingIds, TaskCall.openNext, hlive, hgathered, hrem,
      TaskCall.idsAt, batchAgents, List.map_append, List.map_nil, List.flatten_cons,
      List.count_append, List.count_nil] at hcount happend ⊢
    omega
  keys := h.keys
  ascending := h.ascending
  prepared := hb ▸ prepared_of_openBatch fun _ hm => mem_batchAgents hm

/-- **The moves of a call lose no agent.** -/
theorem move (h : Covered b c) (hids : (b.agents.map (·.id)).Nodup) (hb : c.brief = b)
    (hm : TaskCall.Move A x now c seen d) : Covered b d := by
  cases hm with
  | start | wait | send => exact h.adjust (fun _ => rfl) (fun _ => rfl) (fun _ => rfl)
  | finish hi _ => exact h.settle hids hi (Executor.agentId_resultOf ..)
  | report => exact (h.collect hids).1
  | pause => exact ⟨h.ids, h.keys, h.ascending, h.prepared⟩
  | dispatch hlive hgathered hrem => exact h.openNext hb hlive hgathered hrem

end Covered

/-! ### Results -/

/-- How the result of an agent came about. -/
inductive Explains (A : BackendLaw) (x : Executor) (C : Prop) (b : Brief) (agent : Agent) :
    AgentResult Float → Prop
  /-- The agent is disabled. -/
  | disabled {now : Nat} : agent.isActive = false →
      Explains A x C b agent (Executor.disabledResult agent now)
  /-- Its prompt could not be made. -/
  | promptless {now : Nat} : agent.isActive = true → b.prompts agent b.task = none →
      Explains A x C b agent (Executor.promptlessResult agent now)
  /-- The backend replied in time or not. -/
  | replied {prompt : String} {response : Response} {serial startedAt now : Nat} :
      agent.isActive = true → b.prompts agent b.task = some prompt →
      A b.id (b.request agent prompt) response →
      Explains A x C b agent (x.resultOf agent serial startedAt now (x.curtail response).2)
  /-- The call was cancelled. -/
  | cancelled {prompt : String} {serial startedAt now : Nat} : agent.isActive = true →
      b.prompts agent b.task = some prompt → C →
      Explains A x C b agent (x.resultOf agent serial startedAt now .cancelled)

/-- Every result has its explanation, and so will have every result that is waited for. -/
structure Explained (A : BackendLaw) (x : Executor) (C : Prop) (b : Brief) (c : TaskCall) :
    Prop where
  cancelled : c.isCancelled = true → C
  calling : ∀ i ∈ c.live, ∀ endsAt ending, i.stage = .calling endsAt ending →
    ∃ response, A b.id (b.request i.agent i.prompt) response ∧ ending = (x.curtail response).2
  results : ∀ r ∈ c.finished, ∃ agent ∈ b.agents, Explains A x C b agent r

/-- The results that a batch has at once are explained. -/
theorem explains_of_openBatch {serial : Nat} {members : List (Nat × Agent)}
    (hm : ∀ m ∈ members, c.agents[m.1]? = some m.2) :
    ∀ r ∈ (openBatch c now serial members).1,
      ∃ agent ∈ c.brief.agents, Explains A x C c.brief agent r := by
  induction members generalizing serial with
  | nil => simp [openBatch]
  | cons member rest ih =>
      obtain ⟨place, agent⟩ := member
      have hrest := fun m h => hm m (List.mem_cons_of_mem _ h)
      have hagent : agent ∈ c.brief.agents := List.mem_of_getElem? (hm (place, agent) (by simp))
      cases hp : prepare c now agent with
      | error result =>
          simp only [openBatch, hp]
          intro r hr
          rcases List.mem_cons.1 hr with rfl | hr
          · refine ⟨agent, hagent, ?_⟩
            unfold prepare at hp
            split at hp
            next hactive =>
                cases hp
                exact .disabled (by simpa using hactive)
            next hactive =>
                split at hp
                · cases hp
                next hprompt =>
                    cases hp
                    exact .promptless (by simpa using hactive) hprompt
          · exact ih hrest r hr
      | ok prompt => simpa only [openBatch, hp] using ih hrest

namespace Explained

/-- An invocation that is not at the backend may be changed as long as it does not get there. -/
theorem adjust {f : Invocation → Invocation} (h : Explained A x C b c)
    (hn : (c.live.map (·.place)).Nodup) (hi : c.invocation? i.place = some i)
    (hf : ∀ endsAt ending, (f i).stage = .calling endsAt ending →
      ∃ response, A b.id (b.request (f i).agent (f i).prompt) response ∧
        ending = (x.curtail response).2) : Explained A x C b (c.adjust i.place f) where
  cancelled := h.cancelled
  calling := by
    intro j hj endsAt ending hs
    rcases (TaskCall.mem_live_adjust hn hi).1 hj with ⟨hj, _⟩ | rfl
    · exact h.calling j hj endsAt ending hs
    · exact hf endsAt ending hs
  results := h.results

/-- **The moves of a call keep every result explained.** -/
theorem move (h : Explained A x C b c) (hc : Covered b c) (hids : (b.agents.map (·.id)).Nodup)
    (hb : c.brief = b) (hm : TaskCall.Move A x now c seen d) : Explained A x C b d := by
  have hplaces := hc.places_nodup hids
  cases hm with
  | start hi _ hs =>
      refine h.adjust hplaces hi ?_
      intro endsAt ending hcalling
      rw [show (_ : Invocation).stage = _ from hs] at hcalling
      cases hcalling
  | @wait i stage hi _ hs =>
      refine h.adjust (f := fun i => { i with stage }) hplaces hi ?_
      rintro endsAt ending rfl
      cases hs
  | @send i response hi _ _ hA =>
      refine h.adjust (f := fun j => { j with stage := (.calling
        (now + (x.curtail response).1) (x.curtail response).2) }) hplaces hi ?_
      intro endsAt ending hcalling
      obtain ⟨_, rfl⟩ := Stage.calling.inj hcalling
      exact ⟨response, hb ▸ hA, rfl⟩
  | @finish i ending hi hending =>
      have hmem := TaskCall.mem_live_of_invocation? hi
      have hprepared := hc.prepared i hmem
      refine ⟨h.cancelled, fun j hj => h.calling j (TaskCall.mem_live_without.1 hj).1, ?_⟩
      intro r hr
      simp only [TaskCall.finished, TaskCall.settle, ← List.append_assoc, List.mem_append,
        List.mem_singleton] at hr
      rcases hr with hr | rfl
      · exact h.results r (List.mem_append.2 hr)
      · refine ⟨i.agent, hprepared.mem, ?_⟩
        rcases hending with ⟨hcancelled, rfl⟩ | ⟨_, endsAt, hs, _⟩
        · exact .cancelled hprepared.active hprepared.prompt (h.cancelled hcancelled)
        · obtain ⟨response, hA, rfl⟩ := h.calling i hmem endsAt ending hs
          exact .replied hprepared.active hprepared.prompt hA
  | report =>
      have hperm := (hc.collect hids).2
      exact ⟨h.cancelled, h.calling, fun r hr => h.results r (hperm.subset hr)⟩
  | pause => exact ⟨h.cancelled, h.calling, h.results⟩
  | @dispatch batch rest serial hlive hgathered _ =>
      refine ⟨h.cancelled, ?_, ?_⟩
      · intro i hi endsAt ending hs
        have hfresh := (c.live_openNext now serial batch rest).1 i hi
        rw [hfresh] at hs
        cases hs
      · intro r hr
        rcases List.mem_append.1 hr with hr | hr
        · exact h.results r (List.mem_append_left _ hr)
        · exact hb ▸ explains_of_openBatch (fun _ hm => mem_batchAgents hm) r hr

end Explained

/-! ### Requests -/

/-- The ids of the agents to whose requests were sent, in order. -/
def sentIds (log : List Occurrence) : List String :=
  log.filterMap fun
    | .sent _ request _ => some request.agentId
    | _ => none

@[simp] theorem sentIds_append (log later : List Occurrence) :
    sentIds (log ++ later) = sentIds log ++ sentIds later :=
  List.filterMap_append

theorem mem_sentIds {id : String} :
    id ∈ sentIds log ↔ ∃ k q t, .sent k q t ∈ log ∧ q.agentId = id := by
  simp only [sentIds, List.mem_filterMap]
  constructor
  · rintro ⟨o, ho, hid⟩
    cases o with
    | sent k q t => exact ⟨k, q, t, ho, Option.some.inj hid⟩
    | dispatched | ended | reported | returned => cases hid
  · rintro ⟨k, q, t, hmem, rfl⟩
    exact ⟨_, hmem, rfl⟩

/-- What was seen of a call fits its state: requests were sent once, for agents that may be asked,
and who was asked is still at the backend or has a result, as has everyone who has ended. -/
structure Logged (b : Brief) (c : TaskCall) (log : List Occurrence) : Prop where
  sent_nodup : (sentIds log).Nodup
  sent_done : ∀ id ∈ sentIds log, id ∈ c.finished.map (·.agentId) ∨
    ∃ i ∈ c.live, i.agent.id = id ∧ i.stage.isCalling = true
  sent_prepared : ∀ k q t, .sent k q t ∈ log → ∃ agent ∈ b.agents, agent.isActive = true ∧
    b.prompts agent b.task = some q.prompt ∧ q = b.request agent q.prompt
  ended_done : ∀ k id, .ended k id ∈ log → id ∈ c.finished.map (·.agentId)

namespace Logged

/-- An occurrence that is neither a request nor an end adds nothing. -/
theorem append_quiet (h : Logged b c log) (hsent : ∀ k q t, .sent k q t ∉ seen)
    (hended : ∀ k id, .ended k id ∉ seen) : Logged b c (log ++ seen) := by
  have hnone : sentIds seen = [] := by
    rw [List.eq_nil_iff_forall_not_mem]
    intro id hid
    obtain ⟨k, q, t, hmem, _⟩ := mem_sentIds.1 hid
    exact hsent k q t hmem
  refine ⟨by simpa [hnone] using h.sent_nodup, by simpa [hnone] using h.sent_done, ?_, ?_⟩
  · intro k q t hmem
    exact h.sent_prepared k q t ((List.mem_append.1 hmem).resolve_right (hsent k q t))
  · intro k id hmem
    exact h.ended_done k id ((List.mem_append.1 hmem).resolve_right (hended k id))

/-- The state may change as long as those who have a result keep it, and those at the backend stay
there or get one. -/
theorem weaken (h : Logged b c log)
    (hfinished : ∀ id ∈ c.finished.map (·.agentId), id ∈ d.finished.map (·.agentId))
    (hlive : ∀ i ∈ c.live, i.stage.isCalling = true → i.agent.id ∈ d.finished.map (·.agentId) ∨
      ∃ j ∈ d.live, j.agent.id = i.agent.id ∧ j.stage.isCalling = true) : Logged b d log where
  sent_nodup := h.sent_nodup
  sent_done := by
    intro id hid
    rcases h.sent_done id hid with hdone | ⟨i, hi, rfl, hs⟩
    · exact .inl (hfinished id hdone)
    · exact hlive i hi hs
  sent_prepared := h.sent_prepared
  ended_done := fun k id hmem => hfinished id (h.ended_done k id hmem)

/-- An invocation that is not at the backend may be changed. -/
theorem adjust {f : Invocation → Invocation} (h : Logged b c log)
    (hn : (c.live.map (·.place)).Nodup) (hi : c.invocation? i.place = some i)
    (hs : i.stage.isCalling = false) : Logged b (c.adjust i.place f) log := by
  refine h.weaken (fun _ hid => hid) ?_
  intro j hj hcalling
  have hne : j.place ≠ i.place := by
    intro he
    have hsame := TaskCall.invocation?_of_mem hn hj
    rw [he, hi] at hsame
    rw [Option.some.inj hsame, hcalling] at hs
    cases hs
  exact .inr ⟨j, (TaskCall.mem_live_adjust hn hi).2 (.inl ⟨hj, hne⟩), rfl, hcalling⟩

/-- An invocation sends its request. -/
theorem send {stage : Stage} (h : Logged b c log) (hc : Covered b c)
    (hids : (b.agents.map (·.id)).Nodup) (hb : c.brief = b) (hi : c.invocation? i.place = some i)
    (hs : i.stage.isCalling = false) (hstage : stage.isCalling = true) :
    Logged b (c.setStage i.place stage) (log ++ [.sent c.id (requestOf c i) now]) := by
  have hplaces := hc.places_nodup hids
  have hmem := TaskCall.mem_live_of_invocation? hi
  have hset : Logged b (c.setStage i.place stage) log :=
    h.adjust (f := fun i => { i with stage }) hplaces hi hs
  have hprepared := hc.prepared i hmem
  -- nobody is asked twice: who was asked has a result, or is at the backend
  have hnew : i.agent.id ∉ sentIds log := by
    intro hid
    rcases h.sent_done _ hid with hdone | ⟨j, hj, hid, hcalling⟩
    · exact hc.not_finished hids hmem hdone
    · rw [hc.eq_of_id_eq hids hmem hj hid, hs] at hcalling
      cases hcalling
  refine ⟨?_, ?_, ?_, ?_⟩
  · rw [sentIds_append]
    refine List.nodup_append.2 ⟨h.sent_nodup, List.nodup_singleton _, ?_⟩
    intro id hid id' hid' he
    have hasked : id' = i.agent.id := List.mem_singleton.1 hid'
    rw [he, hasked] at hid
    exact hnew hid
  · intro id hid
    rw [sentIds_append, List.mem_append] at hid
    rcases hid with hid | hid
    · exact hset.sent_done id hid
    · obtain rfl := List.mem_singleton.1 hid
      exact .inr ⟨_, (TaskCall.mem_live_adjust hplaces hi).2 (.inr rfl), rfl, hstage⟩
  · intro k q t hsent
    rcases List.mem_append.1 hsent with hsent | hsent
    · exact h.sent_prepared k q t hsent
    · obtain ⟨_, rfl, _⟩ := Occurrence.sent.inj (List.mem_singleton.1 hsent)
      refine ⟨i.agent, hprepared.mem, hprepared.active, hprepared.prompt, ?_⟩
      rw [← hb]
      rfl
  · intro k id hended
    rcases List.mem_append.1 hended with hended | hended
    · exact h.ended_done k id hended
    · cases List.mem_singleton.1 hended

/-- An invocation ends. -/
theorem settle {r : AgentResult Float} (h : Logged b c log) (hc : Covered b c)
    (hids : (b.agents.map (·.id)).Nodup) (hi : c.invocation? i.place = some i)
    (hr : r.agentId = i.agent.id) : Logged b (c.settle i r) (log ++ endedIf c.id i) := by
  have hmem : i.agent.id ∈ (c.settle i r).finished.map (·.agentId) := by
    rw [← hr]
    exact List.mem_map.2 ⟨r, by simp [TaskCall.finished, TaskCall.settle], rfl⟩
  have hfinished : ∀ id ∈ c.finished.map (·.agentId),
      id ∈ (c.settle i r).finished.map (·.agentId) := by
    intro id hid
    simp only [TaskCall.finished, TaskCall.settle, ← List.append_assoc, List.map_append,
      List.mem_append] at hid ⊢
    exact .inl hid
  have hsettle : Logged b (c.settle i r) log := by
    refine h.weaken hfinished ?_
    intro j hj hcalling
    by_cases he : j.place = i.place
    · have hsame := TaskCall.invocation?_of_mem (hc.places_nodup hids) hj
      rw [he, hi] at hsame
      exact .inl (Option.some.inj hsame ▸ hmem)
    · exact .inr ⟨j, TaskCall.mem_live_without.2 ⟨hj, he⟩, rfl, hcalling⟩
  unfold World.endedIf
  split
  · refine ⟨by simpa [sentIds] using hsettle.sent_nodup, by simpa [sentIds] using hsettle.sent_done,
      ?_, ?_⟩
    · intro k q t hsent
      rcases List.mem_append.1 hsent with hsent | hsent
      · exact hsettle.sent_prepared k q t hsent
      · cases List.mem_singleton.1 hsent
    · intro k id hended
      rcases List.mem_append.1 hended with hended | hended
      · exact hsettle.ended_done k id hended
      · obtain ⟨_, rfl⟩ := Occurrence.ended.inj (List.mem_singleton.1 hended)
        exact hmem
  · rwa [List.append_nil]

/-- **The moves of a call keep what was seen of it fitting.** -/
theorem move (h : Logged b c log) (hc : Covered b c) (hids : (b.agents.map (·.id)).Nodup)
    (hb : c.brief = b) (hm : TaskCall.Move A x now c seen d) : Logged b d (log ++ seen) := by
  have hplaces := hc.places_nodup hids
  cases hm with
  | @start i hi _ hs =>
      rw [List.append_nil]
      exact h.adjust hplaces hi (by rw [hs]; rfl)
  | @wait i stage hi hs _ =>
      rw [List.append_nil]
      exact h.adjust (f := fun i => { i with stage }) hplaces hi hs
  | send hi _ hs _ => exact h.send hc hids hb hi hs rfl
  | finish hi _ => exact h.settle hc hids hi (Executor.agentId_resultOf ..)
  | report =>
      have hperm := (hc.collect hids).2.map (·.agentId)
      have hcollect : Logged b (collect c) log :=
        h.weaken (fun _ hid => hperm.symm.subset hid) fun j hj hs => .inr ⟨j, hj, rfl, hs⟩
      refine hcollect.append_quiet ?_ ?_
      · intro k q t hmem
        obtain ⟨r, _, hr⟩ := List.mem_map.1 hmem
        cases hr
      · intro k id hmem
        obtain ⟨r, _, hr⟩ := List.mem_map.1 hmem
        cases hr
  | pause =>
      rw [List.append_nil]
      exact h.weaken (fun _ hid => hid) fun j hj hs => .inr ⟨j, hj, rfl, hs⟩
  | @dispatch batch rest serial hlive hgathered _ =>
      have hopen : Logged b (c.openNext now serial batch rest) log := by
        refine h.weaken ?_ ?_
        · intro id hid
          simp only [TaskCall.finished, hgathered, List.append_nil] at hid
          simp only [TaskCall.finished, List.map_append, List.mem_append]
          exact .inl hid
        · simp [hlive]
      exact hopen.append_quiet (by simp) (by simp)

end Logged

/-! ### The invariant -/

/-- **Every agent is accounted for**: in the state of its call, by an explanation of its result, and
in what was seen. -/
structure Accounted (A : BackendLaw) (x : Executor) (C : Prop) (b : Brief) (c : TaskCall)
    (log : List Occurrence) : Prop where
  brief : c.brief = b
  covered : Covered b c
  explained : Explained A x C b c
  logged : Logged b c log

/-- **The moves of a call, and cancelling it, keep every agent accounted for.** -/
theorem accounted_invariant (A : BackendLaw) (x : Executor) (T : Nat → Prop) (C : Prop)
    {b : Brief} (hids : (b.agents.map (·.id)).Nodup) :
    CourseInvariant A x T C (Accounted A x C b) where
  move _ h hm := ⟨hm.brief_eq.trans h.brief, h.covered.move hids h.brief hm,
    h.explained.move h.covered hids h.brief hm, h.logged.move h.covered hids h.brief hm⟩
  cancel hC h := ⟨h.brief, h.covered.cancel,
    ⟨fun _ => hC, h.explained.calling, h.explained.results⟩,
    h.logged.weaken (fun _ hid => hid) fun j hj hs => .inr ⟨j, hj, rfl, hs⟩⟩

end AgentSwarm
