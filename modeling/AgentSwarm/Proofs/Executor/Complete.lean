/-
**A call returns one result for every agent.**

Whoever is disabled, breaks down, fails, takes too long or is cancelled, and in whatever order the
invocations of whatever other calls go on: a call that returns has exactly one entry for every
agent, filed under its id and marked with its specialization and its partition.

What the backend answered in a run is read off the run itself: every run is one under the law that
allows just the responses that were given.

Main definitions:

* `AgentSwarm.answeredIn` — the responses that were given in a run.

Main results:

* `AgentSwarm.World.Run.answered` — a run is one under the law of its own responses;
* `AgentSwarm.Accounted.entry` — a call that is done has an explained result for every agent;
* `AgentSwarm.World.Reachable.complete` — **completeness**.
-/

import AgentSwarm.Proofs.Executor.Accounts
import Mathlib.Data.List.Pairwise

set_option relaxedAutoImplicit false
set_option autoImplicit false

namespace AgentSwarm

open World (requestOf endedIf collect openBatch batchAgents newCall)

/-! ### What the backend answered -/

/-- The responses that were given in a run. -/
def answeredIn (trace : Trace) : BackendLaw := fun k request response =>
  ∃ actor seen time, (.run actor response, seen) ∈ trace ∧ .sent k request time ∈ seen

namespace World

variable {A : BackendLaw} {w w' : World} {c : TaskCall} {i : Invocation} {response : Response}

theorem sent_mem_send (w : World) (c : TaskCall) (i : Invocation) (response : Response) :
    .sent c.id (requestOf c i) w.now ∈ (w.send c i response).2 := by
  simp only [send]
  split <;> simp

theorem sent_mem_proceed (h : (w.checkQuota i.agent.partition).isOk = true) :
    .sent c.id (requestOf c i) w.now ∈ (w.proceed c i response).2 := by
  simp only [proceed]
  cases hq : w.checkQuota i.agent.partition with
  | error time =>
      rw [hq] at h
      cases h
  | ok due =>
      have hsent := sent_mem_send (w.putDue i.agent.partition due) c i response
      cases due <;> exact hsent

theorem sent_mem_enter (hfree : 0 < (w.pool (w.keyOf i)).free)
    (h : (w.checkQuota i.agent.partition).isOk = true) :
    .sent c.id (requestOf c i) w.now ∈ (w.enter c i response).2 := by
  simp only [enter]
  rw [if_pos (show 0 < (w.pool (w.executor.poolOf i.agent.partition)).free from hfree)]
  exact sent_mem_proceed (i := { i with stage := .admitted }) h

/-- The request that an actor would send is sent when it goes on. -/
theorem sent_of_request? {a : Actor} {request : Request} {seen : List Occurrence}
    (hr : w.request? a = some request) (hs : w.step? (.run a response) = some (w', seen)) :
    .sent a.call request w.now ∈ seen := by
  simp only [step?, Option.ite_none_right_eq_some, Option.some.injEq] at hs
  obtain ⟨_, hs⟩ := hs
  rw [show seen = (w.runActor a response).2 by rw [hs]]
  simp only [request?] at hr
  simp only [runActor]
  cases hc : w.call? a.call with
  | none => simp [hc] at hr
  | some c =>
      rw [show ({ w with ready := w.ready.erase a } : World).call? a.call = some c from hc]
      rw [hc] at hr
      rw [← id_of_call? hc]
      cases a with
      | caller id => cases hr
      | invocation id place =>
          cases hi : c.invocation? place with
          | none => simp [hi] at hr
          | some i =>
              simp only [hi, Option.ite_none_right_eq_some, Bool.and_eq_true, Bool.not_eq_true',
                Option.some.injEq] at hr
              obtain ⟨⟨⟨hcancelled, hadmitted⟩, hquota⟩, rfl⟩ := hr
              simp only [hi, runInvocation, hcancelled, Bool.false_eq_true, if_false]
              cases hstage : i.stage with
              | fresh =>
                  simp only [hstage, decide_eq_true_eq] at hadmitted
                  exact sent_mem_enter (i := { i with startedAt := w.now }) hadmitted hquota
              | queued | calling => simp [hstage] at hadmitted
              | admitted | throttled =>
                  exact sent_mem_proceed (w := w.rise (.invocation id place)) hquota

/-- **A run is one under the law of its own responses.** -/
theorem Run.answered {trace : Trace} (hrun : Run A w trace w') :
    Run (answeredIn trace) w trace w' := by
  induction hrun with
  | refl => exact .refl
  | @step trace v v' act seen _ _ hs ih =>
      refine .step (ih.weaken ?_) ?_ hs
      · rintro k q r ⟨actor, seen', t, hmem, hsent⟩
        exact ⟨actor, seen', t, List.mem_append_left _ hmem, hsent⟩
      · cases act with
        | run a response =>
            intro request hr
            exact ⟨a, seen, v.now, by simp, sent_of_request? hr hs⟩
        | begin | cancel | abandon | pass => trivial

end World

/-! ### A call that begins -/

/-- A call that begins accounts for all its agents. -/
theorem accounted_newCall (A : BackendLaw) (x : Executor) (C : Prop) (w : World)
    (agents : List Agent) (task : Task) (prompts : PromptBuilder) :
    Accounted A x C ⟨w.nextCall, agents, task, prompts⟩ (newCall w agents task prompts) [] where
  brief := rfl
  covered := by
    refine ⟨?_, by simp [newCall], List.Pairwise.nil, by simp [newCall]⟩
    have hplan := Strategy.perm_flatten_plan w.executor.strategy (agents.map (·.partition))
    rw [List.length_map] at hplan
    have hids : ((newCall w agents task prompts).idsAt
        (newCall w agents task prompts).remaining.flatten).Perm (agents.map (·.id)) := by
      refine List.Perm.trans ?_ (List.Perm.of_eq (idsAt_range (newCall w agents task prompts)))
      exact (hplan.filterMap _).map _
    exact hids
  explained := ⟨by simp [newCall], by simp [newCall], by simp [newCall, TaskCall.finished]⟩
  logged := ⟨List.nodup_nil, by simp [sentIds], by simp, by simp⟩

/-! ### A call that is done -/

section Done

variable {A : BackendLaw} {x : Executor} {C : Prop} {b : Brief} {c d : TaskCall}
  {log seen : List Occurrence} {agent : Agent} {r : AgentResult Float}

/-- A result is marked with its agent, and a failure has no confidence. -/
theorem Explains.marks (h : Explains A x C b agent r) :
    r.agentId = agent.id ∧ r.specialization = agent.specialization ∧
      r.partition = agent.partition ∧ (r.isSuccess = false → r.confidence = Scalar.zero) := by
  have hresult : ∀ (serial startedAt now : Nat) (ending : Ending),
      (x.resultOf agent serial startedAt now ending).agentId = agent.id ∧
      (x.resultOf agent serial startedAt now ending).specialization = agent.specialization ∧
      (x.resultOf agent serial startedAt now ending).partition = agent.partition ∧
      ((x.resultOf agent serial startedAt now ending).isSuccess = false →
        (x.resultOf agent serial startedAt now ending).confidence = Scalar.zero) := by
    intro serial startedAt now ending
    rcases ending with (_ | _ | _) | _ | _
    · exact ⟨rfl, rfl, rfl, fun h => by cases h⟩
    all_goals exact ⟨rfl, rfl, rfl, fun _ => rfl⟩
  cases h with
  | disabled | promptless => exact ⟨rfl, rfl, rfl, fun _ => rfl⟩
  | replied | cancelled => exact hresult ..

/-- The result of a disabled agent is a failure of its own kind. -/
theorem Explains.of_disabled (h : Explains A x C b agent r) (hactive : agent.isActive = false) :
    r.failure?.map Prod.snd = some .agentDisabled := by
  cases h with
  | disabled _ => rfl
  | promptless h' | replied h' | cancelled h' =>
      rw [hactive] at h'
      cases h'

/-- The result of an active agent is no failure of that kind. -/
theorem Explains.of_active (h : Explains A x C b agent r) (hactive : agent.isActive = true) :
    r.failure?.map Prod.snd ≠ some .agentDisabled := by
  have hresult (serial startedAt now : Nat) (ending : Ending) :
      (x.resultOf agent serial startedAt now ending).failure?.map Prod.snd ≠
        some .agentDisabled := by
    rcases ending with (_ | e | _) | _ | _
    case replied.error => cases e <;> exact fun he => by cases he
    all_goals exact fun he => by cases he
  cases h with
  | disabled h' =>
      rw [hactive] at h'
      cases h'
  | promptless => exact fun he => by cases he
  | replied | cancelled => exact hresult _ _ _ _

/-- The result of an agent without a prompt is a failure of its own kind. -/
theorem Explains.of_promptless (h : Explains A x C b agent r) (hactive : agent.isActive = true)
    (hprompt : b.prompts agent b.task = none) : r.failure?.map Prod.snd = some .panicked := by
  cases h with
  | disabled h' =>
      rw [hactive] at h'
      cases h'
  | promptless _ _ => rfl
  | replied _ h' | cancelled _ h' =>
      rw [hprompt] at h'
      cases h'

/-- The results that are there are filed under their agents. -/
theorem Covered.mem_results (h : Covered b c) (hgathered : c.gathered = [])
    (hr : r ∈ c.finished) : (r.agentId, r) ∈ c.results := by
  rw [TaskCall.finished, hgathered, List.append_nil] at hr
  obtain ⟨e, he, rfl⟩ := List.mem_map.1 hr
  rw [← h.keys e he]
  exact he

/-- **A call that is done has results for just its agents.** -/
theorem Covered.perm_keys (h : Covered b c) (hlive : c.live = []) (hgathered : c.gathered = [])
    (hrem : c.remaining = []) : (c.results.map Prod.fst).Perm (b.agents.map (·.id)) := by
  have hids := h.ids
  simp only [TaskCall.finished, TaskCall.pendingIds, hlive, hgathered, hrem, TaskCall.idsAt,
    batchAgents, List.flatten_nil, List.filterMap_nil, List.map_nil, List.append_nil,
    List.map_map] at hids
  rwa [show c.results.map Prod.fst = c.results.map ((·.agentId) ∘ Prod.snd) from
    List.map_congr_left fun e he => h.keys e he]

/-- Agents with ids of their own are known by them. -/
theorem agent_eq_of_id {agents : List Agent} {agent' : Agent} (hids : (agents.map (·.id)).Nodup)
    (ha : agent ∈ agents) (ha' : agent' ∈ agents) (he : agent'.id = agent.id) : agent' = agent :=
  List.inj_on_of_nodup_map hids ha' ha he

/-- A result that is there explains itself by the agent whose id it has. -/
theorem Explained.of_id (h : Explained A x C b c) (hids : (b.agents.map (·.id)).Nodup)
    (ha : agent ∈ b.agents) (hr : r ∈ c.finished) (hid : r.agentId = agent.id) :
    Explains A x C b agent r := by
  obtain ⟨agent', ha', hexplains⟩ := h.results r hr
  have he : agent'.id = agent.id := by rw [← hexplains.marks.1, hid]
  rwa [agent_eq_of_id hids ha ha' he] at hexplains

/-- A call that is done has an entry for every agent. -/
theorem Covered.entry (h : Covered b c) (hlive : c.live = []) (hgathered : c.gathered = [])
    (hrem : c.remaining = []) (ha : agent ∈ b.agents) :
    ∃ r, c.results.lookup agent.id = some r ∧ r ∈ c.finished ∧ r.agentId = agent.id := by
  have hperm := h.perm_keys hlive hgathered hrem
  have hkey : agent.id ∈ c.results.map Prod.fst :=
    hperm.symm.subset (List.mem_map.2 ⟨agent, ha, rfl⟩)
  obtain ⟨⟨id, r⟩, he, rfl⟩ := List.mem_map.1 hkey
  exact ⟨r, h.ascending.lookup_eq_some he, List.mem_append_left _ (List.mem_map.2 ⟨_, he, rfl⟩),
    (h.keys _ he).symm⟩

/-- **A call that is done has an explained result for every agent.** -/
theorem Accounted.entry (h : Accounted A x C b c log) (hids : (b.agents.map (·.id)).Nodup)
    (hlive : c.live = []) (hgathered : c.gathered = []) (hrem : c.remaining = [])
    (ha : agent ∈ b.agents) :
    ∃ r, c.results.lookup agent.id = some r ∧ Explains A x C b agent r := by
  obtain ⟨r, hlookup, hr, hid⟩ := h.covered.entry hlive hgathered hrem ha
  exact ⟨r, hlookup, h.explained.of_id hids ha hr hid⟩

/-- Requests were sent for active agents with prompts only. -/
theorem Logged.asked (h : Logged b c log) (hids : (b.agents.map (·.id)).Nodup)
    (ha : agent ∈ b.agents) (hsent : agent.id ∈ sentIds log) :
    agent.isActive = true ∧ b.prompts agent b.task ≠ none := by
  obtain ⟨k, q, t, hmem, hid⟩ := mem_sentIds.1 hsent
  obtain ⟨agent', ha', hactive, hprompt, hq⟩ := h.sent_prepared k q t hmem
  have he : agent'.id = agent.id := by
    rw [← hid, hq]
    rfl
  obtain rfl := agent_eq_of_id hids ha ha' he
  exact ⟨hactive, by simp [hprompt]⟩

end Done

/-! ### Results that are kept -/

section Kept

variable {A : BackendLaw} {x : Executor} {T : Nat → Prop} {C : Prop} {now : Nat} {b : Brief}
  {c d : TaskCall} {seen : List Occurrence}

/-- No move takes a result away. -/
theorem TaskCall.Move.finished_subset (hm : TaskCall.Move A x now c seen d) (h : Covered b c)
    (hids : (b.agents.map (·.id)).Nodup) {r : AgentResult Float} (hr : r ∈ c.finished) :
    r ∈ d.finished := by
  cases hm with
  | start | wait | send | pause => exact hr
  | finish =>
      simp only [TaskCall.finished, TaskCall.settle, ← List.append_assoc]
      exact List.mem_append_left _ hr
  | report => exact (h.collect hids).2.symm.subset hr
  | dispatch _ hgathered _ =>
      rw [TaskCall.finished, hgathered, List.append_nil] at hr
      exact List.mem_append_left _ hr

/-- **A result that is there stays there.** -/
theorem kept_invariant (A : BackendLaw) (x : Executor) (T : Nat → Prop) (C : Prop)
    (hids : (b.agents.map (·.id)).Nodup) (r : AgentResult Float) :
    CourseInvariant A x T C fun c _ => c.brief = b ∧ Covered b c ∧ r ∈ c.finished where
  move _ h hm :=
    ⟨hm.brief_eq.trans h.1, h.2.1.move hids h.1 hm, hm.finished_subset h.2.1 hids h.2.2⟩
  cancel _ h := ⟨h.1, h.2.1.cancel, h.2.2⟩

end Kept

/-! ### Runs of a call -/

namespace World

section

variable {A : BackendLaw} {w w' : World} {trace : Trace} {k : Nat}

/-- A run of one step is that step. -/
theorem Run.step_of_singleton {act : Action} {seen : List Occurrence}
    (hrun : Run A w [(act, seen)] w') : Lawful A w act ∧ w.step? act = some (w', seen) := by
  generalize hall : [(act, seen)] = all at hrun
  cases hrun with
  | refl => cases hall
  | @step before v _ act' seen' hrun hlaw hs =>
      obtain ⟨hnil, hlast⟩ := List.append_inj' (show [] ++ [(act, seen)] = before ++ [(act', seen')]
        from hall) rfl
      obtain ⟨rfl, rfl⟩ := Prod.mk.inj (List.singleton_inj.1 hlast)
      subst hnil
      generalize hempty : ([] : Trace) = empty at hrun
      cases hrun with
      | refl => exact ⟨hlaw, hs⟩
      | step => simp at hempty

end

variable {A : BackendLaw} {w w' : World} {agents : List Agent} {task : Task}
  {prompts : PromptBuilder} {trace : Trace} {results : List (String × AgentResult Float)}
  {time : Nat}

/-- **An invariant of the moves holds of a call from when it begins**, and of the state in which it
returns. -/
theorem Sound.returned {P : TaskCall → List Occurrence → Prop} {C : Prop} (hw : w.Sound)
    (hI : CourseInvariant A w.executor (fun _ => True) C P)
    (hP : P (newCall w agents task prompts) [])
    (hrun : Run A (w.beginCall agents task prompts) trace w')
    (hC : .cancel w.nextCall ∈ trace.map Prod.fst → C)
    (hret : .returned w.nextCall results time ∈ trace.seen) :
    ∃ c log, P c log ∧ c.live = [] ∧ c.gathered = [] ∧ c.remaining = [] ∧ results = c.results ∧
      seenOf w.nextCall trace.seen = log ++ [.returned w.nextCall results time] := by
  have hholds := hI.run hrun (hw.beginCall agents task prompts) rfl (Nat.lt_succ_self _)
    (hw.listed.call?_beginCall_self agents task prompts) hP (fun _ _ _ _ => trivial) hC
  obtain ⟨c, log, hP, hlive, hgathered, hrem, hresults, _, hlog⟩ :=
    hholds.over results time (mem_seenOf.2 ⟨hret, rfl⟩)
  exact ⟨c, log, hP, hlive, hgathered, hrem, hresults, hlog⟩

/-- **An invocation that ended before its call was cancelled has the result of its own reply**,
whatever happens to the call later. -/
theorem Sound.ended_in_time {before after : Trace} {act : Action} {seen : List Occurrence}
    {agent : Agent} (hw : w.Sound) (hids : (agents.map (·.id)).Nodup)
    (hrun : Run A (w.beginCall agents task prompts) (before ++ (act, seen) :: after) w')
    (ha : agent ∈ agents) (hended : .ended w.nextCall agent.id ∈ seen)
    (hcancel : .cancel w.nextCall ∉ before.map Prod.fst)
    (hret : .returned w.nextCall results time ∈ Trace.seen (before ++ (act, seen) :: after)) :
    ∃ r, results.lookup agent.id = some r ∧
      Explains A w.executor False ⟨w.nextCall, agents, task, prompts⟩ agent r := by
  have hbegin := hw.beginCall agents task prompts
  rw [List.append_cons] at hrun hret
  obtain ⟨v, hfirst, hlater⟩ := hrun.split
  obtain ⟨hv, hexec, hle⟩ := hfirst.sound hbegin
  have hlt : w.nextCall < v.nextCall := Nat.lt_of_lt_of_le (Nat.lt_succ_self _) hle
  -- up to the end of the invocation the call was not cancelled
  have hnever : .cancel w.nextCall ∈ (before ++ [(act, seen)]).map Prod.fst → False := by
    intro hmem
    rw [List.map_append, List.mem_append] at hmem
    rcases hmem with hmem | hmem
    · exact hcancel hmem
    · obtain rfl : Action.cancel w.nextCall = act := List.mem_singleton.1 hmem
      obtain ⟨u, _, hlast⟩ := hfirst.split
      obtain ⟨_, hs⟩ := hlast.step_of_singleton
      obtain ⟨c, _, he⟩ := Option.map_eq_some_iff.1 hs
      obtain rfl := (Prod.mk.inj he).2
      cases hended
  have hholds := (accounted_invariant A w.executor (fun _ => True) False
    (b := ⟨w.nextCall, agents, task, prompts⟩) hids).run hfirst hbegin rfl (Nat.lt_succ_self _)
    (hw.listed.call?_beginCall_self agents task prompts)
    (accounted_newCall A w.executor False w agents task prompts) (fun _ _ _ _ => trivial) hnever
  have hlog : .ended w.nextCall agent.id ∈
      seenOf w.nextCall (Trace.seen (before ++ [(act, seen)])) := by
    refine mem_seenOf.2 ⟨?_, rfl⟩
    rw [Trace.seen_append, Trace.seen_singleton]
    exact List.mem_append_right _ hended
  rw [Trace.seen_append] at hret
  cases hcall : v.call? w.nextCall with
  | none =>
      -- the call returned in the same step
      have hnothing := (hlater.over hv hlt hcall).2
      have hret' : .returned w.nextCall results time ∈
          seenOf w.nextCall (Trace.seen (before ++ [(act, seen)])) := by
        rcases List.mem_append.1 hret with hret | hret
        · exact mem_seenOf.2 ⟨hret, rfl⟩
        · have hmem : .returned w.nextCall results time ∈ seenOf w.nextCall after.seen :=
            mem_seenOf.2 ⟨hret, rfl⟩
          rw [hnothing] at hmem
          cases hmem
      obtain ⟨c, log, hP, hlive, hgathered, hrem, rfl, _, _⟩ := hholds.over results time hret'
      obtain ⟨r, hr, hexplains⟩ := hP.entry hids hlive hgathered hrem ha
      exact ⟨r, hr, hexplains⟩
  | some c =>
      -- the call goes on with the result, which it keeps
      rw [hcall] at hholds
      obtain ⟨hP, _, hnotyet⟩ := hholds
      obtain ⟨r, hr, hid⟩ := List.mem_map.1 (hP.logged.ended_done _ _ hlog)
      have hexplains := hP.explained.of_id hids ha hr hid
      have hkept := (kept_invariant A w.executor (fun _ => True) True hids r).run hlater hv hexec
        hlt hcall ⟨hP.brief, hP.covered, hr⟩ (fun _ _ _ _ => trivial) fun _ => trivial
      have hret' : .returned w.nextCall results time ∈ seenOf w.nextCall after.seen := by
        rcases List.mem_append.1 hret with hret | hret
        · exact absurd (mem_seenOf.2 ⟨hret, rfl⟩) (hnotyet results time)
        · exact mem_seenOf.2 ⟨hret, rfl⟩
      obtain ⟨d, _, ⟨_, hcovered, hrd⟩, _, hgathered, _, rfl, _, _⟩ :=
        hkept.over results time hret'
      refine ⟨r, ?_, hexplains⟩
      rw [← hid]
      exact hcovered.ascending.lookup_eq_some (hcovered.mem_results hgathered hrd)

/-- The request of an agent is answered once. -/
theorem answeredIn_unique {k : Nat} {q q' : Request} {response response' : Response}
    (hn : (sentIds (seenOf k trace.seen)).Nodup) (h : answeredIn trace k q response)
    (h' : answeredIn trace k q' response') (hid : q.agentId = q'.agentId) :
    response = response' := by
  obtain ⟨actor, seen, t, hmem, hsent⟩ := h
  obtain ⟨actor', seen', t', hmem', hsent'⟩ := h'
  have hsplit : sentIds (seenOf k trace.seen) =
      trace.flatMap fun e => sentIds (seenOf k e.2) := by
    simp only [Trace.seen, seenOf, sentIds, List.flatMap, List.filter_flatten,
      List.filterMap_flatten, List.map_map]
    rfl
  rw [hsplit, List.nodup_flatMap] at hn
  -- two responses would belong to two steps, and no agent is asked in both
  by_contra hne
  have hpairs : ((.run actor response, seen) : Action × List Occurrence) ≠
      (.run actor' response', seen') := by
    intro he
    exact hne (Action.run.inj (Prod.mk.inj he).1).2
  have hsymm : Std.Symm (Function.onFun List.Disjoint fun e : Action × List Occurrence =>
      sentIds (seenOf k e.2)) := ⟨fun _ _ h _ ha hb => h hb ha⟩
  have hdisjoint := hn.2.forall hmem hmem' hpairs
  have hin : q.agentId ∈ sentIds (seenOf k seen) :=
    mem_sentIds.2 ⟨k, q, t, mem_seenOf.2 ⟨hsent, rfl⟩, rfl⟩
  have hin' : q.agentId ∈ sentIds (seenOf k seen') :=
    mem_sentIds.2 ⟨k, q', t', mem_seenOf.2 ⟨hsent', rfl⟩, hid.symm⟩
  exact hdisjoint hin hin'

/-- **Completeness.**  A call for agents with ids of their own that returns gives one entry for
every agent and no other.  The entry of an agent is marked with its id, specialization and
partition; a failure has no confidence.  The backend is asked at most once for an agent, and never
for one that is disabled or without a prompt; these have failures of their own kinds.  And an
invocation in which the backend breaks down before the call is cancelled is a panic. -/
theorem Reachable.complete {x : Executor} (hw : Reachable x w)
    (hids : (agents.map (·.id)).Nodup)
    (hrun : Run A (w.beginCall agents task prompts) trace w')
    (hret : .returned w.nextCall results time ∈ trace.seen) :
    (results.map Prod.fst).Perm (agents.map (·.id)) ∧
    ∀ agent ∈ agents, ∃ r, results.lookup agent.id = some r ∧
      r.agentId = agent.id ∧ r.specialization = agent.specialization ∧
      r.partition = agent.partition ∧ (r.isSuccess = false → r.confidence = Scalar.zero) ∧
      (sentIds (seenOf w.nextCall trace.seen)).count agent.id ≤ 1 ∧
      (agent.isActive = false → r.failure?.map Prod.snd = some .agentDisabled ∧
        agent.id ∉ sentIds (seenOf w.nextCall trace.seen)) ∧
      (agent.isActive = true → prompts agent task = none →
        r.failure?.map Prod.snd = some .panicked ∧
          agent.id ∉ sentIds (seenOf w.nextCall trace.seen)) ∧
      (∀ before act seen after request response message,
        trace = before ++ (act, seen) :: after → .ended w.nextCall agent.id ∈ seen →
        .cancel w.nextCall ∉ before.map Prod.fst → answeredIn trace w.nextCall request response →
        request.agentId = agent.id → (x.curtail response).2 = .replied (.panic message) →
          r.failure?.map Prod.snd = some .panicked) := by
  have hsound := hw.sound
  obtain rfl := hw.executor_eq
  have hrun' := hrun.answered
  obtain ⟨c, log, hP, hlive, hgathered, hrem, rfl, hlog⟩ := hsound.returned
    (accounted_invariant (answeredIn trace) w.executor (fun _ => True) True
      (b := ⟨w.nextCall, agents, task, prompts⟩) hids)
    (accounted_newCall _ _ _ w agents task prompts) hrun' (fun _ => trivial) hret
  have hsent : sentIds (seenOf w.nextCall trace.seen) = sentIds log := by
    rw [hlog, sentIds_append]
    simp [sentIds]
  refine ⟨hP.covered.perm_keys hlive hgathered hrem, ?_⟩
  intro agent ha
  obtain ⟨r, hlookup, hexplains⟩ := hP.entry hids hlive hgathered hrem ha
  obtain ⟨hid, hspecialization, hpartition, hconfidence⟩ := hexplains.marks
  rw [hsent]
  refine ⟨r, hlookup, hid, hspecialization, hpartition, hconfidence,
    List.nodup_iff_count_le_one.1 hP.logged.sent_nodup _, ?_, ?_, ?_⟩
  · intro hactive
    refine ⟨hexplains.of_disabled hactive, fun hmem => ?_⟩
    have hasked := (hP.logged.asked hids ha hmem).1
    rw [hactive] at hasked
    cases hasked
  · intro hactive hprompt
    exact ⟨hexplains.of_promptless hactive hprompt,
      fun hmem => (hP.logged.asked hids ha hmem).2 hprompt⟩
  · intro before act seen after request response message htrace hended hcancel hanswered hrequest
      hpanic
    subst htrace
    obtain ⟨r', hlookup', hexplains'⟩ := hsound.ended_in_time hids hrun' ha hended hcancel hret
    obtain rfl : r = r' := Option.some.inj (hlookup.symm.trans hlookup')
    have hmem : agent.id ∈ sentIds log := by
      obtain ⟨_, seen', t, hstep, hsent'⟩ := hanswered
      rw [← hsent]
      refine mem_sentIds.2 ⟨_, request, t, mem_seenOf.2 ⟨?_, rfl⟩, hrequest⟩
      exact List.mem_flatMap.2 ⟨_, hstep, hsent'⟩
    obtain ⟨hactive, hprompt⟩ := hP.logged.asked hids ha hmem
    cases hexplains' with
    | disabled h' =>
        rw [hactive] at h'
        cases h'
    | promptless _ h' => exact absurd h' hprompt
    | cancelled _ _ h' => exact h'.elim
    | replied _ _ hA =>
        have hsame := answeredIn_unique (hsent ▸ hP.logged.sent_nodup) hA hanswered hrequest.symm
        rw [hsame, hpanic]
        rfl

/-- A call that returns, with an entry for the agent that is disabled too. -/
theorem Reachable.complete_met : ∃ results time,
    .returned 0 results time ∈ (Sample.begun.follow default Sample.course).1.seen ∧
    (results.map Prod.fst).Perm ["a", "b"] ∧
    ∃ r, results.lookup "b" = some r ∧ r.failure?.map Prod.snd = some .agentDisabled := by
  have hrun : Run anyLaw Sample.begun (Sample.begun.follow default Sample.course).1 _ :=
    run_follow (fun _ _ => trivial) Sample.course (by decide +kernel)
  have hreturned : ∃ results time, .returned 0 results time ∈
      (Sample.begun.follow default Sample.course).1.seen := exists_returned (by decide +kernel)
  obtain ⟨results, time, hret⟩ := hreturned
  have hcomplete := Reachable.complete (Sample.reachable_idle Sample.executor) (by decide +kernel)
    hrun hret
  obtain ⟨hkeys, hentries⟩ := hcomplete
  obtain ⟨r, hlookup, _, _, _, _, _, hdisabled, _⟩ :=
    hentries { Agent.create "b" "analyst" default "p" defaultProfile 1 with status := .disabled }
      (by simp [Sample.agents])
  exact ⟨results, time, hret, hkeys, r, hlookup, (hdisabled rfl).1⟩

end World

end AgentSwarm
