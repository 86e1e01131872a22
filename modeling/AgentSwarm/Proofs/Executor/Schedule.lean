/-
**The schedule does not matter.**

When the backend's response depends on the prompt, the context and the profile only, the verdict on
an agent is the one it has when it is asked alone: no permit, no quota, no pause and no other agent
has a part in it.  So two executors that differ in their strategies and quotas come to the same
verdicts, whatever the order in which invocations go on, and the consensus is the same.

The wording of a breakdown names the number of the task that broke down, and only this number is
left to the schedule.

Main definitions:

* `AgentSwarm.PureBackend`, `AgentSwarm.PureBackend.law` — responses without a state;
* `AgentSwarm.PureBackend.alone` — **the verdict on an agent that is asked alone**;
* `AgentSwarm.PureBackend.AsAlone` — the results of a call have these verdicts.

Main results:

* `AgentSwarm.World.Reachable.alone` — a call comes to the verdicts on its agents alone;
* `AgentSwarm.World.Reachable.schedule_independent` — **two executors come to the same verdicts**;
* `AgentSwarm.World.breakdown_tells_schedule` — a breakdown whose wording they do not share.
-/

import AgentSwarm.Proofs.Consensus.Verdict
import AgentSwarm.Proofs.Executor.Complete
import AgentSwarm.Proofs.Executor.Progress

set_option relaxedAutoImplicit false
set_option autoImplicit false

namespace AgentSwarm

/-! ### Verdicts on responses -/

/-- The wording of a breakdown in the task of a number. -/
def abortText (serial : Nat) (message : String) : String :=
  "Agent task aborted: task " ++ String.ofList (Decimal.natChars serial) ++
    " panicked with message " ++ Text.quoted message

/-- The verdict on a response, with a limit in milliseconds. -/
def Response.verdict (settings : ExecutorSettings) (limit serial : Nat) (response : Response) :
    Verdict Float :=
  if limit < response.latency then
    .failed (InferenceError.timeout settings.agentTimeout).message .timeout
  else
    match response.reply with
    | .answer r =>
      { outcome := .success r.result
        confidence := Scalar.clampUnit (r.confidence.getD settings.defaultConfidence)
        tokens := r.usage.map (·.tokens)
        cost := r.usage.map (·.cost) }
    | .error e => .failed e.message e.kind
    | .panic message => .failed (abortText serial message) .panicked

/-- **The result of an invocation has the verdict on its response**, whenever it started and ended. -/
theorem verdict_resultOf_curtail {x : Executor} {settings : ExecutorSettings} {limit : Nat}
    (htimeout : x.settings.agentTimeout = settings.agentTimeout)
    (hdefault : x.settings.defaultConfidence = settings.defaultConfidence)
    (hlimit : settings.agentTimeout = .ofMillis limit) (agent : Agent)
    (serial startedAt now : Nat) (response : Response) :
    (x.resultOf agent serial startedAt now (x.curtail response).2).verdict =
      response.verdict settings limit serial := by
  obtain ⟨latency, reply⟩ := response
  have hceil : x.settings.agentTimeout.ceilMillis = limit := by
    rw [htimeout, hlimit, Duration.ceilMillis_ofMillis]
  simp only [Executor.curtail, Response.verdict, hceil]
  by_cases hlate : limit < latency
  · rw [if_pos hlate, if_neg (Nat.not_le.2 hlate), ← htimeout]
    rfl
  · rw [if_neg hlate, if_pos (Nat.not_lt.1 hlate), ← hdefault]
    cases reply <;> rfl

/-! ### Backends without a state -/

/-- What a backend responds to a prompt, a context and a profile. -/
abbrev PureBackend := String → Members Float → String → Response

namespace PureBackend

/-- The law under which the backend responds so to the requests of a call. -/
def law (f : PureBackend) (k : Nat) : BackendLaw := fun j request response =>
  j = k → response = f request.prompt request.context request.profile

variable (f : PureBackend) (settings : ExecutorSettings) (limit : Nat) (task : Task)
  (prompts : PromptBuilder) (serial : Nat) (agent : Agent)

/-- **The verdict on an agent that is asked alone**, with a limit in milliseconds. -/
def alone : Verdict Float :=
  if agent.isActive = false then .failed "Agent is disabled" .agentDisabled
  else
    match prompts agent task with
    | none => .failed "Prompt builder panicked" .panicked
    | some prompt => (f prompt task.context agent.profile).verdict settings limit serial

/-- The backend breaks down in time when the agent is asked. -/
def BreaksDown : Prop :=
  agent.isActive = true ∧ ∃ prompt message, prompts agent task = some prompt ∧
    (f prompt task.context agent.profile).latency ≤ limit ∧
    (f prompt task.context agent.profile).reply = .panic message

variable {f settings limit task prompts serial agent}

/-- The number of the task is read when the backend breaks down only. -/
theorem alone_congr (h : ¬ f.BreaksDown limit task prompts agent) (serial' : Nat) :
    f.alone settings limit task prompts serial agent =
      f.alone settings limit task prompts serial' agent := by
  unfold alone
  split
  · rfl
  next hactive =>
      split
      · rfl
      next prompt hprompt =>
          unfold Response.verdict
          split
          · rfl
          next hlate =>
              split
              · rfl
              · rfl
              next message hreply =>
                  exact absurd ⟨by simpa using hactive, prompt, message, hprompt,
                    Nat.le_of_not_lt hlate, hreply⟩ h

/-- The verdict on an agent for which the backend breaks down. -/
theorem alone_of_breaksDown (settings : ExecutorSettings)
    (h : f.BreaksDown limit task prompts agent) (serial : Nat) : ∃ message,
      f.alone settings limit task prompts serial agent =
        .failed (abortText serial message) .panicked := by
  obtain ⟨hactive, prompt, message, hprompt, hlatency, hreply⟩ := h
  refine ⟨message, ?_⟩
  simp [alone, Response.verdict, hactive, hprompt, Nat.not_lt.2 hlatency, hreply]

/-- What an agent contributes to a consensus does not depend on the number of its task. -/
theorem contribution_eq {r r' : AgentResult Float} {serial' : Nat}
    (h : r.verdict = f.alone settings limit task prompts serial agent)
    (h' : r'.verdict = f.alone settings limit task prompts serial' agent) :
    r.contribution = r'.contribution := by
  by_cases hbreaks : f.BreaksDown limit task prompts agent
  · obtain ⟨message, hfailed⟩ := alone_of_breaksDown settings hbreaks serial
    obtain ⟨message', hfailed'⟩ := alone_of_breaksDown settings hbreaks serial'
    rw [hfailed] at h
    rw [hfailed'] at h'
    rw [AgentResult.contribution_eq_none (congrArg Verdict.outcome h),
      AgentResult.contribution_eq_none (congrArg Verdict.outcome h')]
  · rw [alone_congr hbreaks serial', ← h'] at h
    exact AgentResult.contribution_congr h

/-- **An explained result has the verdict on its agent alone.** -/
theorem verdict_of_explains {x : Executor} {b : Brief} {r : AgentResult Float}
    (htimeout : x.settings.agentTimeout = settings.agentTimeout)
    (hdefault : x.settings.defaultConfidence = settings.defaultConfidence)
    (hlimit : settings.agentTimeout = .ofMillis limit)
    (h : Explains (f.law b.id) x False b agent r) :
    ∃ serial, r.verdict = f.alone settings limit b.task b.prompts serial agent := by
  cases h with
  | disabled hactive =>
      refine ⟨0, ?_⟩
      rw [alone, if_pos hactive]
      rfl
  | promptless hactive hprompt =>
      refine ⟨0, ?_⟩
      rw [alone, if_neg (by simp [hactive]), hprompt]
      rfl
  | cancelled _ _ h => exact h.elim
  | @replied prompt response serial startedAt now hactive hprompt hA =>
      obtain rfl := hA rfl
      refine ⟨serial, ?_⟩
      rw [verdict_resultOf_curtail htimeout hdefault hlimit, alone, if_neg (by simp [hactive]),
        hprompt]
      rfl

/-! ### Results of calls -/

/-- The results of a call are those of its agents alone: there is one for every agent, in the order of
the ids, with the verdict on the agent alone. -/
structure AsAlone (f : PureBackend) (settings : ExecutorSettings) (limit : Nat) (agents : List Agent)
    (task : Task) (prompts : PromptBuilder) (results : List (String × AgentResult Float)) :
    Prop where
  ascending : Ascending results
  keys : (results.map Prod.fst).Perm (agents.map (·.id))
  verdicts : ∀ e ∈ results, ∃ agent ∈ agents, e.1 = agent.id ∧
    ∃ serial, e.2.verdict = f.alone settings limit task prompts serial agent

namespace AsAlone

variable {agents : List Agent} {results results' : List (String × AgentResult Float)}

theorem keys_eq (h : AsAlone f settings limit agents task prompts results)
    (h' : AsAlone f settings limit agents task prompts results') :
    results.map Prod.fst = results'.map Prod.fst :=
  h.ascending.keys_eq h'.ascending (h.keys.trans h'.keys.symm)

/-- Entries of one key are about one agent. -/
theorem exists_pair (h : AsAlone f settings limit agents task prompts results)
    (h' : AsAlone f settings limit agents task prompts results') (hids : (agents.map (·.id)).Nodup)
    {e e' : String × AgentResult Float} (he : e ∈ results) (he' : e' ∈ results')
    (hkey : e.1 = e'.1) : ∃ agent ∈ agents, e.1 = agent.id ∧ ∃ serial serial',
      e.2.verdict = f.alone settings limit task prompts serial agent ∧
      e'.2.verdict = f.alone settings limit task prompts serial' agent := by
  obtain ⟨agent, ha, hid, serial, hverdict⟩ := h.verdicts e he
  obtain ⟨agent', ha', hid', serial', hverdict'⟩ := h'.verdicts e' he'
  obtain rfl := agent_eq_of_id hids ha ha' (hid'.symm.trans (hkey.symm.trans hid))
  exact ⟨_, ha, hid, serial, serial', hverdict, hverdict'⟩

/-- Agents contribute the same. -/
theorem contributions_eq (h : AsAlone f settings limit agents task prompts results)
    (h' : AsAlone f settings limit agents task prompts results')
    (hids : (agents.map (·.id)).Nodup) :
    results.map (fun e => (e.1, e.2.contribution)) =
      results'.map fun e => (e.1, e.2.contribution) := by
  refine map_eq_of_keys_eq (h.keys_eq h') fun e he e' he' hkey => ?_
  obtain ⟨agent, _, _, serial, serial', hverdict, hverdict'⟩ := h.exists_pair h' hids he he' hkey
  exact Prod.ext hkey (contribution_eq hverdict hverdict')

/-- The verdicts on an agent are the same, but for the wording of a breakdown. -/
theorem exists_verdicts (h : AsAlone f settings limit agents task prompts results)
    (h' : AsAlone f settings limit agents task prompts results') (hids : (agents.map (·.id)).Nodup)
    (ha : agent ∈ agents) : ∃ r r' serial serial',
      results.lookup agent.id = some r ∧ results'.lookup agent.id = some r' ∧
      r.verdict = f.alone settings limit task prompts serial agent ∧
      r'.verdict = f.alone settings limit task prompts serial' agent ∧
      (¬ f.BreaksDown limit task prompts agent → r.verdict = r'.verdict) := by
  have hmem : agent.id ∈ results.map Prod.fst := h.keys.symm.subset (List.mem_map.2 ⟨agent, ha, rfl⟩)
  have hmem' : agent.id ∈ results'.map Prod.fst := h.keys_eq h' ▸ hmem
  obtain ⟨e, he, hid⟩ := List.mem_map.1 hmem
  obtain ⟨e', he', hid'⟩ := List.mem_map.1 hmem'
  obtain ⟨found, hfound, hid₁, serial, serial', hverdict, hverdict'⟩ :=
    h.exists_pair h' hids he he' (hid.trans hid'.symm)
  obtain rfl := agent_eq_of_id hids ha hfound (hid₁.symm.trans hid)
  refine ⟨e.2, e'.2, serial, serial', h.ascending.lookup_eq_some (hid ▸ he),
    h'.ascending.lookup_eq_some (hid' ▸ he'), hverdict, hverdict', fun hbreaks => ?_⟩
  rw [hverdict, hverdict']
  exact alone_congr hbreaks serial'

/-- The consensus is the same, but for what it says of agents for which the backend breaks down. -/
theorem agreesOff (h : AsAlone f settings limit agents task prompts results)
    (h' : AsAlone f settings limit agents task prompts results')
    (hids : (agents.map (·.id)).Nodup) (key : VoteKey Float) (algorithm : Algorithm) :
    (aggregate key algorithm results).AgreesOff
      (fun id => ∃ agent ∈ agents, agent.id = id ∧ f.BreaksDown limit task prompts agent)
      (aggregate key algorithm results') := by
  refine aggregate_agreesOff key algorithm (h.contributions_eq h' hids) fun id hid => ?_
  by_cases hmem : id ∈ results.map Prod.fst
  · obtain ⟨agent, ha, rfl⟩ := List.mem_map.1 (h.keys.subset hmem)
    obtain ⟨r, r', _, _, hr, hr', _, _, hsame⟩ := h.exists_verdicts h' hids ha
    have hverdict := hsame fun hbreaks => hid ⟨agent, ha, rfl, hbreaks⟩
    rw [hr, hr', Option.map_some, Option.map_some, AgentResult.shortfall_congr hverdict]
  · have hmem' : id ∉ results'.map Prod.fst := h.keys_eq h' ▸ hmem
    rw [lookup_eq_none_of_not_mem_keys hmem, lookup_eq_none_of_not_mem_keys hmem']

/-- The consensus is the same when somebody takes part in it or the backend never breaks down. -/
theorem aggregate_eq (h : AsAlone f settings limit agents task prompts results)
    (h' : AsAlone f settings limit agents task prompts results')
    (hids : (agents.map (·.id)).Nodup) (key : VoteKey Float) (algorithm : Algorithm)
    (hor : survivors results ≠ [] ∨ ∀ agent ∈ agents, ¬ f.BreaksDown limit task prompts agent) :
    aggregate key algorithm results = aggregate key algorithm results' := by
  -- a consensus without survivors names the errors, so none of these may be a breakdown
  refine aggregate_congr key algorithm (h.contributions_eq h' hids) (hor.imp_right fun hnone => ?_)
  refine map_eq_of_keys_eq (h.keys_eq h') fun e he e' he' hkey => ?_
  obtain ⟨agent, ha, _, serial, serial', hverdict, hverdict'⟩ := h.exists_pair h' hids he he' hkey
  rw [alone_congr (hnone agent ha) serial', ← hverdict'] at hverdict
  exact Prod.ext hkey (AgentResult.shortfall_congr hverdict)

end AsAlone

end PureBackend

/-! ### Calls -/

namespace World

variable {f : PureBackend} {settings : ExecutorSettings} {limit : Nat} {agents : List Agent}
  {task : Task} {prompts : PromptBuilder}

section

variable {strategy : Strategy} {quotas : List (String × Nat)} {x : Executor} {w v : World}
  {trace : Trace} {results : List (String × AgentResult Float)} {time : Nat}

/-- **A call comes to the verdicts on its agents alone**, in the order of their ids. -/
theorem Reachable.alone
    (hx : Executor.create strategy { settings with partitionQuotas := quotas } = .ok x)
    (hlimit : settings.agentTimeout = .ofMillis limit) (hw : Reachable x w)
    (hids : (agents.map (·.id)).Nodup)
    (hrun : Run (f.law w.nextCall) (w.beginCall agents task prompts) trace v)
    (hcancel : .cancel w.nextCall ∉ trace.map Prod.fst)
    (hret : .returned w.nextCall results time ∈ trace.seen) :
    f.AsAlone settings limit agents task prompts results := by
  obtain ⟨_, _, hsettings⟩ := Executor.create_eq_ok_iff.1 hx
  obtain rfl := hw.executor_eq
  obtain ⟨c, log, hP, hlive, hgathered, hrem, rfl, _⟩ := hw.sound.returned
    (accounted_invariant (f.law w.nextCall) w.executor (fun _ => True) False
      (b := ⟨w.nextCall, agents, task, prompts⟩) hids)
    (accounted_newCall _ _ _ w agents task prompts) hrun (fun hmem => hcancel hmem) hret
  refine ⟨hP.covered.ascending, hP.covered.perm_keys hlive hgathered hrem, ?_⟩
  intro e he
  have hr : e.2 ∈ c.finished := List.mem_append_left _ (List.mem_map.2 ⟨e, he, rfl⟩)
  obtain ⟨agent, ha, hexplains⟩ := hP.explained.results e.2 hr
  refine ⟨agent, ha, (hP.covered.keys e he).trans hexplains.marks.1, ?_⟩
  exact PureBackend.verdict_of_explains (x := w.executor)
    (b := ⟨w.nextCall, agents, task, prompts⟩) (by rw [hsettings]) (by rw [hsettings]) hlimit
    hexplains

/-- A call that nobody gives up returns, now or later. -/
theorem Reachable.returns
    (hx : Executor.create strategy { settings with partitionQuotas := quotas } = .ok x)
    (hw : Reachable x w)
    (hrun : Run (f.law w.nextCall) (w.beginCall agents task prompts) trace v)
    (habandon : .abandon w.nextCall ∉ trace.map Prod.fst) :
    (∃ results time, .returned w.nextCall results time ∈ trace.seen) ∨
      Inevitable (f.law w.nextCall) w.nextCall v := by
  have hbegin := hw.sound.beginCall agents task prompts
  have hself := hw.sound.listed.call?_beginCall_self agents task prompts
  rcases hrun.returned_or_on hbegin (by simp [hself]) habandon with hret | hon
  · exact .inl hret
  · have hstart := hw.begin agents task prompts
    refine .inr ((hstart.run hrun).inevitable (Executor.poolSize_pos hx) ?_ hon)
    intro k request
    exact ⟨f request.prompt request.context request.profile, fun _ => rfl⟩

end

/-- **The schedule does not matter.**  Two executors that differ in their strategies and quotas only
are asked the same, and the backend's responses depend on prompts, contexts and profiles only.  Then
both calls return; they have entries for the same agents in the same order; the verdict on every
agent is the one on the agent alone, and so are the two the same, but for the number of the task in
the wording of a breakdown; and the consensus is the same, but for such wordings among the reasons
that it gives when nobody takes part. -/
theorem Reachable.schedule_independent {strategy₁ strategy₂ : Strategy}
    {quotas₁ quotas₂ : List (String × Nat)} {x₁ x₂ : Executor} {w₁ w₂ v₁ v₂ : World}
    {trace₁ trace₂ : Trace}
    (hx₁ : Executor.create strategy₁ { settings with partitionQuotas := quotas₁ } = .ok x₁)
    (hx₂ : Executor.create strategy₂ { settings with partitionQuotas := quotas₂ } = .ok x₂)
    (hlimit : settings.agentTimeout = .ofMillis limit)
    (hw₁ : Reachable x₁ w₁) (hw₂ : Reachable x₂ w₂) (hids : (agents.map (·.id)).Nodup)
    (hrun₁ : Run (f.law w₁.nextCall) (w₁.beginCall agents task prompts) trace₁ v₁)
    (hrun₂ : Run (f.law w₂.nextCall) (w₂.beginCall agents task prompts) trace₂ v₂)
    (hkept₁ : ∀ act ∈ trace₁.map Prod.fst, act ≠ .cancel w₁.nextCall ∧ act ≠ .abandon w₁.nextCall)
    (hkept₂ : ∀ act ∈ trace₂.map Prod.fst, act ≠ .cancel w₂.nextCall ∧ act ≠ .abandon w₂.nextCall) :
    ((∃ results time, .returned w₁.nextCall results time ∈ trace₁.seen) ∨
      Inevitable (f.law w₁.nextCall) w₁.nextCall v₁) ∧
    ((∃ results time, .returned w₂.nextCall results time ∈ trace₂.seen) ∨
      Inevitable (f.law w₂.nextCall) w₂.nextCall v₂) ∧
    ∀ results₁ time₁ results₂ time₂, .returned w₁.nextCall results₁ time₁ ∈ trace₁.seen →
      .returned w₂.nextCall results₂ time₂ ∈ trace₂.seen →
      results₁.map Prod.fst = results₂.map Prod.fst ∧
      (∀ agent ∈ agents, ∃ r₁ r₂ serial₁ serial₂,
        results₁.lookup agent.id = some r₁ ∧ results₂.lookup agent.id = some r₂ ∧
        r₁.verdict = f.alone settings limit task prompts serial₁ agent ∧
        r₂.verdict = f.alone settings limit task prompts serial₂ agent ∧
        (¬ f.BreaksDown limit task prompts agent → r₁.verdict = r₂.verdict)) ∧
      survivors results₁ = survivors results₂ ∧
      (∀ key algorithm, (aggregate key algorithm results₁).AgreesOff
        (fun id => ∃ agent ∈ agents, agent.id = id ∧ f.BreaksDown limit task prompts agent)
        (aggregate key algorithm results₂)) ∧
      ∀ key algorithm, (survivors results₁ ≠ [] ∨
        ∀ agent ∈ agents, ¬ f.BreaksDown limit task prompts agent) →
        aggregate key algorithm results₁ = aggregate key algorithm results₂ := by
  refine ⟨hw₁.returns hx₁ hrun₁ fun hmem => (hkept₁ _ hmem).2 rfl,
    hw₂.returns hx₂ hrun₂ fun hmem => (hkept₂ _ hmem).2 rfl, ?_⟩
  intro results₁ time₁ results₂ time₂ hret₁ hret₂
  have halone₁ := hw₁.alone hx₁ hlimit hids hrun₁ (fun hmem => (hkept₁ _ hmem).1 rfl) hret₁
  have halone₂ := hw₂.alone hx₂ hlimit hids hrun₂ (fun hmem => (hkept₂ _ hmem).1 rfl) hret₂
  exact ⟨halone₁.keys_eq halone₂, fun agent ha => halone₁.exists_verdicts halone₂ hids ha,
    survivors_congr (halone₁.contributions_eq halone₂ hids),
    fun key algorithm => halone₁.agreesOff halone₂ hids key algorithm,
    fun key algorithm => halone₁.aggregate_eq halone₂ hids key algorithm⟩

/-- A strategy that asks all agents of a partition at once. -/
def wide : Strategy := ⟨"wide", 2, .ofSeconds 1, true, "All agents of a partition at once"⟩

/-- An executor of that strategy, with a quota, when it begins to ask the agents. -/
def hurried : World :=
  (idle ⟨wide, { ExecutorSettings.standard with partitionQuotas := [("p", 60)] }⟩).beginCall
    Sample.agents Sample.task Sample.prompts

/-- The response of a backend that is down. -/
def outage : Response := ⟨0, .error (.invocation "down")⟩

/-- Agents that are asked one after another and at once, and a backend that is down. -/
theorem Reachable.schedule_independent_met : ∃ results₁ time₁ results₂ time₂,
    .returned 0 results₁ time₁ ∈ (Sample.begun.follow outage Sample.course).1.seen ∧
      .returned 0 results₂ time₂ ∈ (hurried.follow outage (Sample.course.take 3)).1.seen ∧
      ∀ key algorithm, aggregate key algorithm results₁ = aggregate key algorithm results₂ := by
  have hx₁ : Executor.create Sample.strategy
      { ExecutorSettings.standard with partitionQuotas := [] } = .ok Sample.executor :=
    Executor.create_eq_ok_iff.2 ⟨by rfl, by simp, rfl⟩
  have hx₂ : Executor.create wide { ExecutorSettings.standard with partitionQuotas := [("p", 60)] } =
      .ok ⟨wide, { ExecutorSettings.standard with partitionQuotas := [("p", 60)] }⟩ :=
    Executor.create_eq_ok_iff.2 ⟨by rfl, by simp, rfl⟩
  have hlimit : ExecutorSettings.standard.agentTimeout = .ofMillis 30000 := rfl
  have hrun₁ : Run (PureBackend.law (fun _ _ _ => outage) 0) Sample.begun
      (Sample.begun.follow outage Sample.course).1 _ :=
    run_follow (fun _ _ _ => rfl) Sample.course (by decide +kernel)
  have hrun₂ : Run (PureBackend.law (fun _ _ _ => outage) 0) hurried
      (hurried.follow outage (Sample.course.take 3)).1 _ :=
    run_follow (fun _ _ _ => rfl) (Sample.course.take 3) (by decide +kernel)
  have hreturned₁ : ∃ results time, .returned 0 results time ∈
      (Sample.begun.follow outage Sample.course).1.seen := exists_returned (by decide +kernel)
  have hreturned₂ : ∃ results time, .returned 0 results time ∈
      (hurried.follow outage (Sample.course.take 3)).1.seen := exists_returned (by decide +kernel)
  obtain ⟨results₁, time₁, hret₁⟩ := hreturned₁
  obtain ⟨results₂, time₂, hret₂⟩ := hreturned₂
  have hkept : ∀ (w : World) response actors, ∀ act ∈ (w.follow response actors).1.map Prod.fst,
      act ≠ .cancel 0 ∧ act ≠ .abandon 0 := by
    intro w response actors act hact
    obtain ⟨a, rfl⟩ := run_of_mem_follow act hact
    exact ⟨by simp, by simp⟩
  obtain ⟨_, _, hsame⟩ := Reachable.schedule_independent hx₁ hx₂ hlimit (Sample.reachable_idle _)
    (Sample.reachable_idle _) (by decide +kernel) hrun₁ hrun₂ (hkept _ _ _) (hkept _ _ _)
  obtain ⟨_, _, _, _, haggregate⟩ := hsame results₁ time₁ results₂ time₂ hret₁ hret₂
  refine ⟨results₁, time₁, results₂, time₂, hret₁, hret₂, ?_⟩
  intro key algorithm
  refine haggregate key algorithm (.inr ?_)
  rintro agent _ ⟨_, _, _, _, _, hreply⟩
  cases hreply

end World

namespace Sample

/-- Three agents of two partitions, which are not in the order of their partitions. -/
def trio : List Agent :=
  [.create "a" "analyst" default "p" defaultProfile 1,
    .create "b" "analyst" default "q" defaultProfile 1,
    .create "c" "analyst" default "p" defaultProfile 1]

/-- A strategy that sends three requests at a time, for all partitions or for each of them. -/
def three (routed : Bool) : Strategy := ⟨"three", 3, .zero, routed, "Three requests at a time"⟩

/-- An executor of that strategy when it begins to ask the three agents. -/
def trioBegun (routed : Bool) : World :=
  (World.idle ⟨three routed, .standard⟩).beginCall trio task prompts

/-- The actors in an order in which this call returns, when the backend responds at once. -/
def trioCourse : List Actor :=
  [.caller 0, .invocation 0 0, .invocation 0 1, .invocation 0 2, .caller 0]

/-- The response of a backend that breaks down. -/
def breakdown : Response := ⟨0, .panic "boom"⟩

/-- Whether the three agents have failed by breakdowns in the tasks 1, `second` and `third`. -/
def isBrokenDown (second third : Nat) (results : List (String × AgentResult Float)) : Bool :=
  (survivors results).isEmpty &&
    results.map (fun e => (e.1, e.2.shortfall)) == [("a", abortText 1 "boom"),
      ("b", abortText second "boom"), ("c", abortText third "boom")] &&
    (results.lookup "b").bind AgentResult.failure? == some (abortText second "boom", .panicked)

theorem of_isBrokenDown {second third : Nat} {results : List (String × AgentResult Float)}
    (h : isBrokenDown second third results = true) : survivors results = [] ∧
      results.map (fun e => (e.1, e.2.shortfall)) = [("a", abortText 1 "boom"),
        ("b", abortText second "boom"), ("c", abortText third "boom")] ∧
      ∃ r, results.lookup "b" = some r ∧
        r.outcome = .failure (abortText second "boom") .panicked := by
  simp only [isBrokenDown, Bool.and_eq_true, List.isEmpty_iff, beq_iff_eq] at h
  obtain ⟨⟨hnone, htexts⟩, hfailure⟩ := h
  obtain ⟨r, hr, hfailure⟩ := Option.bind_eq_some_iff.1 hfailure
  refine ⟨hnone, htexts, r, hr, ?_⟩
  unfold AgentResult.failure? at hfailure
  split at hfailure
  next => cases hfailure
  next houtcome =>
      obtain ⟨rfl, rfl⟩ := Prod.mk.inj (Option.some.inj hfailure)
      exact houtcome

end Sample

namespace World

/-- **A breakdown tells the schedule.**  Two executors differ in routing only, and the backend breaks
down whatever it is asked.  Both calls return, and nobody gives them up; but the second agent is asked
in another task, so its failure reads otherwise, and so does every consensus. -/
theorem breakdown_tells_schedule :
    let f : PureBackend := fun _ _ _ => Sample.breakdown
    (∀ routed, Executor.create (Sample.three routed)
        { ExecutorSettings.standard with partitionQuotas := [] } =
      .ok ⟨Sample.three routed, .standard⟩) ∧
    ExecutorSettings.standard.agentTimeout = .ofMillis 30000 ∧
    (Sample.trio.map (·.id)).Nodup ∧
    ∃ trace₁ v₁ trace₂ v₂, Run (f.law 0) (Sample.trioBegun false) trace₁ v₁ ∧
      Run (f.law 0) (Sample.trioBegun true) trace₂ v₂ ∧
      (∀ act ∈ trace₁.map Prod.fst, act ≠ .cancel 0 ∧ act ≠ .abandon 0) ∧
      (∀ act ∈ trace₂.map Prod.fst, act ≠ .cancel 0 ∧ act ≠ .abandon 0) ∧
      ∃ results₁ time₁ results₂ time₂, .returned 0 results₁ time₁ ∈ trace₁.seen ∧
        .returned 0 results₂ time₂ ∈ trace₂.seen ∧
        (∃ r₁ r₂, results₁.lookup "b" = some r₁ ∧ results₂.lookup "b" = some r₂ ∧
          r₁.outcome = .failure (abortText 2 "boom") .panicked ∧
          r₂.outcome = .failure (abortText 3 "boom") .panicked ∧ r₁.verdict ≠ r₂.verdict) ∧
        ∀ key algorithm, aggregate key algorithm results₁ ≠ aggregate key algorithm results₂ := by
  intro f
  have hrun (routed : Bool) (hmay :
      (Sample.trioBegun routed).mayFollow Sample.breakdown Sample.trioCourse = true) :
      Run (f.law 0) (Sample.trioBegun routed) _ _ := run_follow (fun _ _ _ => rfl) _ hmay
  have hkept : ∀ routed, ∀ act ∈ ((Sample.trioBegun routed).follow Sample.breakdown
      Sample.trioCourse).1.map Prod.fst, act ≠ .cancel 0 ∧ act ≠ .abandon 0 := by
    intro routed act hact
    obtain ⟨a, rfl⟩ := run_of_mem_follow act hact
    exact ⟨by simp, by simp⟩
  obtain ⟨results₁, time₁, hret₁, hbroken₁⟩ := @exists_returned_with 0 (Sample.isBrokenDown 2 3)
    ((Sample.trioBegun false).follow Sample.breakdown Sample.trioCourse).1.seen (by decide +kernel)
  obtain ⟨results₂, time₂, hret₂, hbroken₂⟩ := @exists_returned_with 0 (Sample.isBrokenDown 3 2)
    ((Sample.trioBegun true).follow Sample.breakdown Sample.trioCourse).1.seen (by decide +kernel)
  obtain ⟨hnone₁, htexts₁, r₁, hr₁, houtcome₁⟩ := Sample.of_isBrokenDown hbroken₁
  obtain ⟨hnone₂, htexts₂, r₂, hr₂, houtcome₂⟩ := Sample.of_isBrokenDown hbroken₂
  have htext : abortText 2 "boom" ≠ abortText 3 "boom" := by decide +kernel
  refine ⟨?_, rfl, by decide +kernel, _, _, _, _, hrun false (by decide +kernel),
    hrun true (by decide +kernel), hkept false, hkept true, results₁, time₁, results₂, time₂, hret₁,
    hret₂, ⟨r₁, r₂, hr₁, hr₂, houtcome₁, houtcome₂, fun heq => ?_⟩, fun key algorithm heq => ?_⟩
  · intro routed
    exact Executor.create_eq_ok_iff.2 ⟨by cases routed <;> rfl, by simp, rfl⟩
  · have houtcome := congrArg Verdict.outcome heq
    simp only [AgentResult.verdict, houtcome₁, houtcome₂, Outcome.failure.injEq] at houtcome
    exact htext houtcome.1
  · have htexts := shortfalls_eq_of_aggregate hnone₁ hnone₂ heq
    rw [htexts₁, htexts₂] at htexts
    simp only [List.cons.injEq, Prod.mk.injEq, true_and] at htexts
    exact htext htexts.1

end World

end AgentSwarm
