/-
**What happens to a call that is cancelled.**

A cancelled call is never waited for: all its actors are ready until it has returned, so no time
passes.  Its invocations end without an answer, each batch that is still to come is dispatched at
once, and its invocations end in the same way.  No request is sent any more, and no quota is used.

Main definitions:

* `AgentSwarm.TaskCall.toDispatch` — the batches to come, as they are seen when none is waited for;
* `AgentSwarm.Winding` — the invariant of a call from when it is cancelled.

Main results:

* `AgentSwarm.World.Awake.ready_of_cancelled` — **somebody of a cancelled call is ready**;
* `AgentSwarm.winding_invariant` — the moves of a cancelled call keep the invariant;
* `AgentSwarm.World.dues_eq_of_step?` — a cancelled call uses no quota;
* `AgentSwarm.World.Reachable.cancelled` — **what happens after a call was cancelled**.
-/

import AgentSwarm.Proofs.Executor.Complete
import AgentSwarm.Proofs.Executor.Progress

set_option relaxedAutoImplicit false
set_option autoImplicit false

namespace AgentSwarm

open World (requestOf endedIf collect openBatch batchAgents newCall)

/-! ### The batches to come -/

/-- Whether an occurrence is that a batch is dispatched. -/
def Occurrence.isDispatch : Occurrence → Bool
  | .dispatched _ _ _ _ => true
  | _ => false

/-- What is seen of the batches to come when all are dispatched at one time. -/
def TaskCall.toDispatch (c : TaskCall) (now : Nat) : List Occurrence :=
  (c.remaining.zipIdx c.dispatched).map fun b => .dispatched c.id b.2 (c.idsAt b.1) now

section

variable {A : BackendLaw} {x : Executor} {now : Nat} {b : Brief} {c₀ c d : TaskCall}
  {i : Invocation} {log seen : List Occurrence}

/-- The next batch is the first of those to come. -/
theorem TaskCall.toDispatch_openNext (serial : Nat) {batch : List Nat} {rest : List (List Nat)}
    (hrem : c.remaining = batch :: rest) : c.toDispatch now =
      .dispatched c.id c.dispatched ((batchAgents c batch).map fun m => m.2.id) now ::
        (c.openNext now serial batch rest).toDispatch now := by
  simp only [toDispatch, hrem, List.zipIdx_cons, List.map_cons]
  rfl

/-! ### The invariant of a cancelled call -/

/-- The law under which the backend answers nothing. -/
def noLaw : BackendLaw := fun _ _ _ => False

/-- A call that was cancelled in a state: the batches dispatched since and those to come are the ones
that were to come then, the results that were there are kept, and results were only added that no
answer explains. -/
structure Winding (x : Executor) (b : Brief) (c₀ : TaskCall) (now : Nat) (c : TaskCall)
    (log : List Occurrence) : Prop where
  brief : c.brief = b
  covered : Covered b c
  cancelled : c.isCancelled = true
  dispatched : log.filter (·.isDispatch) ++ c.toDispatch now = c₀.toDispatch now
  kept : ∀ r ∈ c₀.finished, r ∈ c.finished
  results : ∀ r ∈ c.finished, r ∈ c₀.finished ∨
    ∃ agent ∈ b.agents, Explains noLaw x True b agent r

/-- **The moves of a cancelled call keep the invariant**; it neither sends nor pauses. -/
theorem winding_invariant (A : BackendLaw) (x : Executor)
    (hids : (b.agents.map (·.id)).Nodup) :
    CourseInvariant A x (· = now) True (Winding x b c₀ now) where
  cancel _ h := ⟨h.brief, h.covered.cancel, rfl, h.dispatched, h.kept, h.results⟩
  move := by
    rintro _ c d log seen rfl h hm
    have hbrief := hm.brief_eq.trans h.brief
    have hcovered := h.covered.move hids h.brief hm
    have hkept : ∀ r ∈ c₀.finished, r ∈ d.finished :=
      fun r hr => hm.finished_subset h.covered hids (h.kept r hr)
    cases hm with
    | start _ hc _ | send _ hc _ _ | pause _ _ hc =>
        rw [h.cancelled] at hc
        cases hc
    | wait _ _ _ =>
        rw [List.append_nil]
        exact ⟨hbrief, hcovered, h.cancelled, h.dispatched, hkept, h.results⟩
    | @finish i ending hi hending =>
        -- an invocation of a cancelled call ends without a reply, also when there is one
        have hprepared := h.covered.prepared i (TaskCall.mem_live_of_invocation? hi)
        obtain rfl : ending = .cancelled := by
          rcases hending with ⟨_, he⟩ | ⟨hc, _⟩
          · exact he
          · rw [h.cancelled] at hc
            cases hc
        refine ⟨hbrief, hcovered, h.cancelled, ?_, hkept, ?_⟩
        · have hnone : (endedIf c.id i).filter (·.isDispatch) = [] := by
            unfold World.endedIf
            split <;> rfl
          rw [List.filter_append, hnone, List.append_nil]
          exact h.dispatched
        · intro r hr
          simp only [TaskCall.finished, TaskCall.settle, ← List.append_assoc, List.mem_append,
            List.mem_singleton] at hr
          rcases hr with hr | rfl
          · exact h.results r (List.mem_append.2 hr)
          · exact .inr ⟨i.agent, hprepared.mem, .cancelled hprepared.active hprepared.prompt trivial⟩
    | report =>
        have hperm := (h.covered.collect hids).2
        have hnone : (c.gathered.map (Occurrence.reported c.id)).filter (·.isDispatch) = [] := by
          simp [Occurrence.isDispatch]
        refine ⟨hbrief, hcovered, h.cancelled, ?_, hkept, fun r hr => h.results r (hperm.subset hr)⟩
        rw [List.filter_append, hnone, List.append_nil]
        exact h.dispatched
    | @dispatch batch rest serial _ hgathered hrem =>
        refine ⟨hbrief, hcovered, h.cancelled, ?_, hkept, ?_⟩
        · rw [← h.dispatched, TaskCall.toDispatch_openNext serial hrem]
          simp [Occurrence.isDispatch]
        · intro r hr
          rcases List.mem_append.1 hr with hr | hr
          · exact h.results r (List.mem_append_left _ hr)
          · exact .inr (h.brief ▸ explains_of_openBatch (fun _ hm => mem_batchAgents hm) r hr)

/-- What a cancelled call that is over has done since. -/
theorem Accounted.wound_up {agent : Agent} (hacc : Accounted A x True b c log)
    (hids : (b.agents.map (·.id)).Nodup) (h : Winding x b c now d seen) (hlive : d.live = [])
    (hgathered : d.gathered = []) (hrem : d.remaining = []) (ha : agent ∈ b.agents) :
    ∃ r, d.results.lookup agent.id = some r ∧
      (∀ r₀ ∈ c.finished, r₀.agentId = agent.id → r = r₀) ∧
      (agent.isActive = false → r.failure?.map Prod.snd = some .agentDisabled) ∧
      (agent.isActive = true → b.prompts agent b.task = none →
        r.failure?.map Prod.snd = some .panicked) ∧
      (agent.isActive = true → b.prompts agent b.task ≠ none →
        (∀ r₀ ∈ c.finished, r₀.agentId ≠ agent.id) →
          r.failure?.map Prod.snd = some .cancelled) := by
  obtain ⟨r, hlookup, hr, hid⟩ := h.covered.entry hlive hgathered hrem ha
  have hkept : ∀ r₀ ∈ c.finished, r₀.agentId = agent.id → r = r₀ := by
    intro r₀ hr₀ hid₀
    have hentry := h.covered.ascending.lookup_eq_some
      (h.covered.mem_results hgathered (h.kept r₀ hr₀))
    rw [hid₀, hlookup] at hentry
    exact Option.some.inj hentry
  rcases h.results r hr with hold | ⟨agent', ha', hexplains⟩
  · -- the result was there when the call was cancelled
    have hexplains := hacc.explained.of_id hids ha hold hid
    exact ⟨r, hlookup, hkept, hexplains.of_disabled, hexplains.of_promptless,
      fun _ _ hnone => absurd hid (hnone r hold)⟩
  · obtain rfl := agent_eq_of_id hids ha ha' (hexplains.marks.1.symm.trans hid)
    refine ⟨r, hlookup, hkept, hexplains.of_disabled, hexplains.of_promptless, ?_⟩
    intro hactive hprompt _
    cases hexplains with
    | disabled h' =>
        rw [hactive] at h'
        cases h'
    | promptless _ h' => exact absurd h' hprompt
    | replied _ _ hA => exact hA.elim
    | cancelled _ _ _ => rfl

/-- **A cancelled call stays cancelled, and sends no request.** -/
theorem TaskCall.Moves.of_cancelled (h : TaskCall.Moves A x now c seen d)
    (hc : c.isCancelled = true) : d.isCancelled = true ∧ ∀ k q t, .sent k q t ∉ seen := by
  induction h with
  | refl => exact ⟨hc, by simp⟩
  | @step seen later c₁ c₂ _ hm ih =>
      obtain ⟨hc₁, hsent⟩ := ih
      suffices hlater : c₂.isCancelled = true ∧ ∀ k q t, .sent k q t ∉ later by
        refine ⟨hlater.1, fun k q t hmem => ?_⟩
        rcases List.mem_append.1 hmem with hmem | hmem
        · exact hsent k q t hmem
        · exact hlater.2 k q t hmem
      cases hm with
      | start _ hnot | send _ hnot | pause _ _ hnot =>
          rw [hc₁] at hnot
          cases hnot
      | wait => exact ⟨hc₁, by simp⟩
      | finish =>
          refine ⟨hc₁, fun k q t hmem => ?_⟩
          cases eq_of_mem_endedIf hmem
      | report => exact ⟨hc₁, by simp⟩
      | dispatch => exact ⟨hc₁, by simp⟩

end

namespace World

variable {A : BackendLaw} {w w' : World} {act : Action} {seen : List Occurrence} {k : Nat}
  {a : Actor} {c d : TaskCall} {trace : Trace}

/-! ### Nobody of a cancelled call waits -/

/-- What an actor of a call stands for is cancelled with it. -/
theorem not_queues_of_cancelled {s : Standing} (hc : w.call? k = some c)
    (hcancelled : c.isCancelled = true) (ha : a.call = k) (hs : w.standing? a = some s) :
    ¬ s.Queues ∧ ∀ t, ¬ s.Sleeps t := by
  simp only [standing?, ha, hc, Option.bind_some] at hs
  cases a with
  | caller j =>
      rw [Option.ite_none_right_eq_some, Option.some.injEq] at hs
      rw [← hs.2]
      exact ⟨id, fun t hsleeps => by simp [hcancelled, Standing.Sleeps] at hsleeps⟩
  | invocation j place =>
      obtain ⟨i, _, rfl⟩ := Option.map_eq_some_iff.1 hs
      exact ⟨fun hq => by simp [hcancelled, Standing.Queues] at hq,
        fun t hsleeps => by simp [hcancelled, Standing.Sleeps] at hsleeps⟩

/-- **Nobody of a cancelled call waits for a time, and somebody is ready.** -/
theorem Awake.ready_of_cancelled (hs : w.Sound) (h : w.Awake fun _ => False)
    (hc : w.call? k = some c) (hcancelled : c.isCancelled = true) :
    (∀ alarm ∈ w.alarms, alarm.2.call ≠ k) ∧ ∃ a ∈ w.ready, a.call = k := by
  have hready : ∀ a s, a.call = k → w.standing? a = some s → a ∈ w.ready := by
    intro a s ha hstand
    obtain ⟨hqueues, hsleeps⟩ := not_queues_of_cancelled hc hcancelled ha hstand
    rcases h.awake a s hstand id with hr | hq | ⟨t, ht⟩
    · exact hr
    · exact absurd hq hqueues
    · obtain ⟨_, s', hs', hsl⟩ := h.alarms t a ht
      obtain rfl := Option.some.inj (hstand.symm.trans hs')
      exact absurd hsl (hsleeps t)
  constructor
  · rintro ⟨t, a⟩ halarm ha
    obtain ⟨_, s, hstand, hsl⟩ := h.alarms t a halarm
    exact (not_queues_of_cancelled hc hcancelled ha hstand).2 t hsl
  · obtain rfl := id_of_call? hc
    cases hlive : c.live with
    | nil => exact ⟨.caller c.id, hready _ _ rfl (standing?_caller hc hlive), rfl⟩
    | cons i rest =>
        have hi : i ∈ c.live := by simp [hlive]
        have hhas : w.Has c i := ⟨hc, TaskCall.invocation?_of_mem
          (hs.listed.tidy c (mem_calls_of_call? hc)).places_nodup hi⟩
        exact ⟨actorOf c i, hready _ _ rfl hhas.standing?, rfl⟩

/-- In a step a cancelled call stays cancelled, and as long as it is under way no time passes. -/
theorem Step.still (hstep : Step A w act seen w') (hs : w.Sound) (h : w.Awake fun _ => False)
    (hk : k < w.nextCall) (hcancelled : ∀ c, w.call? k = some c → c.isCancelled = true)
    (hd : w'.call? k = some d) : (∃ c, w.call? k = some c) ∧ d.isCancelled = true ∧
      w'.now = w.now := by
  have hbefore : ∃ c, w.call? k = some c ∧ d.isCancelled = true := by
    rcases hstep.fate hs hk with ⟨_, _, c, hc, hd'⟩ | ⟨_, c, _, hd', _⟩ | hfate
    · obtain rfl := Option.some.inj (hd.symm.trans hd')
      exact ⟨c, hc, rfl⟩
    · rw [hd] at hd'
      cases hd'
    · rw [hd] at hfate
      generalize hc : w.call? k = o, seenOf k seen = later at hfate
      cases hfate with
      | @on c _ _ hm => exact ⟨c, rfl, (hm.of_cancelled (hcancelled c hc)).1⟩
  obtain ⟨c, hc, hdc⟩ := hbefore
  refine ⟨⟨c, hc⟩, hdc, ?_⟩
  cases hstep with
  | begin agents task prompts => rfl
  | turn _ ht => exact ht.steady.now
  | cancel _ => exact (steady_cancelCall w _).now
  | abandon _ => exact (steady_abandonCall w _).now
  | pass hready _ _ =>
      -- somebody of the call would be ready
      obtain ⟨_, a, ha, _⟩ := h.ready_of_cancelled hs hc (hcancelled c hc)
      rw [hready] at ha
      cases ha

/-- In a step nothing is sent for a cancelled call. -/
theorem Step.unsent (hstep : Step A w act seen w') (hs : w.Sound) (hk : k < w.nextCall)
    (hcancelled : ∀ c, w.call? k = some c → c.isCancelled = true) :
    ∀ q t, .sent k q t ∉ seen := by
  suffices h : ∀ q t, .sent k q t ∉ seenOf k seen from
    fun q t hmem => h q t (mem_seenOf.2 ⟨hmem, rfl⟩)
  rcases hstep.fate hs hk with ⟨_, hseen, _⟩ | ⟨_, c, _, _, hseen⟩ | hfate
  · simp [hseen]
  · rw [hseen]
    intro q t hmem
    obtain ⟨i, _, hi⟩ := List.mem_flatMap.1 hmem
    cases eq_of_mem_endedIf hi
  · generalize hc : w.call? k = o, seenOf k seen = later, w'.call? k = o' at hfate
    cases hfate with
    | gone => simp
    | @on c _ _ hm => exact (hm.of_cancelled (hcancelled c hc)).2 k
    | @returned c _ _ hm _ _ _ =>
        intro q t hmem
        rcases List.mem_append.1 hmem with hmem | hmem
        · exact (hm.of_cancelled (hcancelled c hc)).2 k q t hmem
        · simp at hmem

/-- **As long as a cancelled call is under way no time passes**, and nothing is sent for it. -/
theorem Run.still (hrun : Run A w trace w') (hs : w.Sound) (h : w.Awake fun _ => False)
    (hk : k < w.nextCall) (hcancelled : ∀ c, w.call? k = some c → c.isCancelled = true) :
    (∀ q t, .sent k q t ∉ trace.seen) ∧
      ∀ d, w'.call? k = some d → d.isCancelled = true ∧ w'.now = w.now := by
  induction hrun with
  | refl => exact ⟨by simp, fun d hd => ⟨hcancelled d hd, rfl⟩⟩
  | @step trace v v' act seen hrun hlaw hstep ih =>
      obtain ⟨hsent, hstill⟩ := ih
      obtain ⟨hsound, _, hle⟩ := hrun.sound hs
      have hawake := hrun.awake hs h
      have hstep' := step_of_step? hstep hlaw
      have hkv := Nat.lt_of_lt_of_le hk hle
      have hv : ∀ c, v.call? k = some c → c.isCancelled = true := fun c hc => (hstill c hc).1
      constructor
      · intro q t hmem
        rw [Trace.seen_append, Trace.seen_singleton] at hmem
        rcases List.mem_append.1 hmem with hmem | hmem
        · exact hsent q t hmem
        · exact hstep'.unsent hsound hkv hv q t hmem
      · intro d hd
        obtain ⟨⟨c, hc⟩, hdc, hnow⟩ := hstep'.still hsound hawake hkv hv hd
        exact ⟨hdc, hnow.trans (hstill c hc).2⟩

/-- An actor of a cancelled call sends no request. -/
theorem request?_of_cancelled (hc : w.call? k = some c) (hcancelled : c.isCancelled = true)
    (ha : a.call = k) : w.request? a = none := by
  simp only [request?, ha, hc]
  cases a with
  | caller j => rfl
  | invocation j place =>
      cases hi : c.invocation? place with
      | none => simp [hi]
      | some i => simp [hi, hcancelled]

/-- **A cancelled call is bound to return**, whatever the backend does. -/
theorem inevitable_of_cancelled (hs : w.Sound) (h : w.Awake fun _ => False)
    (hc : w.call? k = some c) (hcancelled : c.isCancelled = true) : Inevitable A k w := by
  have hk := hs.listed.id_lt c (mem_calls_of_call? hc)
  rw [id_of_call? hc] at hk
  refine inevitable_of_tick (J := fun v => k < v.nextCall ∧
    ∀ d, v.call? k = some d → d.isCancelled = true) ?_ ?_ hs h ⟨hk, ?_⟩ (by simp [hc])
  · intro v act seen v' hv hvawake hJ ht
    exact ⟨Nat.lt_of_lt_of_le hJ.1 ht.step.nextCall_le,
      fun d hd => (ht.step.still hv hvawake hJ.1 hJ.2 hd).2.1⟩
  · intro v hv hvawake hJ hcall
    obtain ⟨d, hd⟩ := Option.ne_none_iff_exists'.1 hcall
    obtain ⟨_, a, ha, hak⟩ := hvawake.ready_of_cancelled hv hd (hJ.2 d hd)
    refine exists_tick_of_ready ha fun request hr => ?_
    rw [request?_of_cancelled hd (hJ.2 d hd) hak] at hr
    cases hr
  · intro d hd
    rw [hc] at hd
    exact Option.some.inj hd ▸ hcancelled

/-! ### Quotas -/

/-- Quotas are left alone when an invocation is given up. -/
theorem Sound.dues_detach {i : Invocation} (hs : w.Sound) (hi : w.Has c i) :
    (w.detach c.id i).dues = w.dues := by
  obtain ⟨_, _, _, he⟩ := detach_eq hs.queued hi
  rw [he]
  exact (leavePool_decreases hs hi).2.2.2

/-- Quotas are left alone when an invocation ends. -/
theorem Sound.dues_finish {i : Invocation} (hs : w.Sound) (hi : w.Has c i) (ending : Ending) :
    (w.finish c.id i ending).dues = w.dues := by
  obtain ⟨_, _, _, _, he⟩ := finish_eq hs.queued hi ending
  rw [he]
  dsimp only
  split <;> exact hs.dues_detach hi

/-- **An actor of a cancelled call uses no quota.** -/
theorem Acts.dues_eq_of_cancelled (hacts : Acts A a w seen w') (hs : w.Sound)
    (hcancelled : ∀ c, w.call? a.call = some c → c.isCancelled = true) : w'.dues = w.dues := by
  induction hacts with
  | last hm =>
      cases hm with
      | finish hi _ => exact hs.dues_finish hi _
      | enqueue | throttle | await | pause | dispatch | leave => rfl
  | move hm _ ih =>
      have hsound := hm.sound hs
      cases hm with
      | start hi hc _ | take hi hc _ _ | send hi hc _ _ _ =>
          rw [hcancelled _ hi.call] at hc
          cases hc
      | @report _ c hcall _ =>
          refine ih hsound ?_
          intro d hd
          have hput := call?_putCall_self (c := collect c) hcall
          obtain rfl := Option.some.inj (hd.symm.trans hput)
          exact hcancelled c hcall

/-- An actor of a cancelled call uses no quota in a step. -/
theorem dues_eq_of_step? {response : Response} (hs : w.Sound)
    (hcancelled : ∀ c, w.call? a.call = some c → c.isCancelled = true)
    (hstep : w.step? (.run a response) = some (w', seen)) : w'.dues = w.dues := by
  obtain ⟨_, hturn⟩ := turn_of_step? (A := anyLaw) hstep fun _ _ => trivial
  cases hturn with
  | idle _ => rfl
  | acts hacts => exact hacts.dues_eq_of_cancelled (hs.rise a) hcancelled

/-! ### The whole of it -/

variable {w₀ : World} {agents : List Agent} {task : Task} {prompts : PromptBuilder}
  {before after : Trace}

/-- The state of a call in a run after which it is under way. -/
theorem Sound.accounted (hw : w₀.Sound) (hids : (agents.map (·.id)).Nodup)
    (hrun : Run A (w₀.beginCall agents task prompts) before w)
    (hc : w.call? w₀.nextCall = some c) :
    ∃ log, Accounted A w₀.executor True ⟨w₀.nextCall, agents, task, prompts⟩ c log := by
  have hholds := (accounted_invariant A w₀.executor (fun _ => True) True
    (b := ⟨w₀.nextCall, agents, task, prompts⟩) hids).run hrun (hw.beginCall agents task prompts) rfl
    (Nat.lt_succ_self _) (hw.listed.call?_beginCall_self agents task prompts)
    (accounted_newCall A w₀.executor True w₀ agents task prompts) (fun _ _ _ _ => trivial)
    fun _ => trivial
  rw [hc] at hholds
  exact ⟨_, hholds.1⟩

/-- A world in which a call was cancelled just now. -/
theorem Sound.just_cancelled (hs : w.Sound) (h : w.Awake fun _ => False)
    (hc : w.call? c.id = some c) : (w.cancelCall c).Sound ∧
      (w.cancelCall c).Awake (fun _ => False) ∧
      (w.cancelCall c).call? c.id = some { c with isCancelled := true } := by
  refine ⟨hs.cancelCall hc, h.cancelCall hs hc, ?_⟩
  rw [call?_cancelCall]
  exact call?_putCall_self (c := { c with isCancelled := true }) hc

/-- **Cancellation.**  A call is cancelled at any moment.  From then on it sends no request and uses
no quota.  As long as it is under way no time passes, none of its actors waits for a time, and it is
bound to return.  When it has returned, its remaining batches were dispatched one after another
without a pause, and it has one entry for every agent: the results that were there are unchanged,
and of the others those of agents that are disabled or without a prompt are failures of their own
kinds, and all others are failures that say that the call was cancelled. -/
theorem Reachable.cancelled {x : Executor} (hw : Reachable x w₀) (hids : (agents.map (·.id)).Nodup)
    (hbefore : Run A (w₀.beginCall agents task prompts) before w)
    (hc : w.call? w₀.nextCall = some c) (hafter : Run A (w.cancelCall c) after w') :
    (∀ q t, .sent w₀.nextCall q t ∉ after.seen) ∧
    (∀ a response seen w'', a.call = w₀.nextCall →
      w'.step? (.run a response) = some (w'', seen) → w''.dues = w'.dues) ∧
    (w'.call? w₀.nextCall ≠ none → w'.now = w.now ∧
      (∀ alarm ∈ w'.alarms, alarm.2.call ≠ w₀.nextCall) ∧ Inevitable A w₀.nextCall w') ∧
    ∀ results time, .returned w₀.nextCall results time ∈ after.seen →
      time = w.now ∧ (results.map Prod.fst).Perm (agents.map (·.id)) ∧
      (seenOf w₀.nextCall after.seen).filter (·.isDispatch) = c.toDispatch w.now ∧
      ∀ agent ∈ agents, ∃ r, results.lookup agent.id = some r ∧
        (∀ r₀ ∈ c.finished, r₀.agentId = agent.id → r = r₀) ∧
        (agent.isActive = false → r.failure?.map Prod.snd = some .agentDisabled) ∧
        (agent.isActive = true → prompts agent task = none →
          r.failure?.map Prod.snd = some .panicked) ∧
        (agent.isActive = true → prompts agent task ≠ none →
          (∀ r₀ ∈ c.finished, r₀.agentId ≠ agent.id) →
            r.failure?.map Prod.snd = some .cancelled) := by
  obtain rfl := hw.executor_eq
  obtain ⟨log, hacc⟩ := hw.sound.accounted hids hbefore hc
  have hbegin := hw.sound.beginCall agents task prompts
  obtain ⟨hsound, hexec, hle⟩ := hbefore.sound hbegin
  have hawake := hbefore.awake hbegin (hw.awake.beginCall hw.sound agents task prompts)
  have hid := id_of_call? hc
  have hk : w₀.nextCall < w.nextCall := Nat.lt_of_lt_of_le (Nat.lt_succ_self _) hle
  obtain ⟨hsound', hawake', hself⟩ := hsound.just_cancelled hawake (hid.symm ▸ hc)
  have hcall : (w.cancelCall c).call? w₀.nextCall = some { c with isCancelled := true } := by
    rw [← hid]
    exact hself
  obtain ⟨hexec', hnow, hnext⟩ := steady_cancelCall w c
  have hcancelled : ∀ d, (w.cancelCall c).call? w₀.nextCall = some d → d.isCancelled = true := by
    intro d hd
    rw [hcall] at hd
    exact Option.some.inj hd ▸ rfl
  obtain ⟨hsent, hstill⟩ := hafter.still hsound' hawake' (hnext ▸ hk) hcancelled
  have hend := (hafter.sound hsound').1
  have hawakeEnd := hafter.awake hsound' hawake'
  refine ⟨hsent, ?_, ?_, ?_⟩
  · intro a response seen w'' ha hstep
    refine dues_eq_of_step? hend (fun d hd => (hstill d ?_).1) hstep
    rwa [ha] at hd
  · intro hon
    obtain ⟨d, hd⟩ := Option.ne_none_iff_exists'.1 hon
    obtain ⟨hdc, hnow'⟩ := hstill d hd
    exact ⟨hnow'.trans hnow, (hawakeEnd.ready_of_cancelled hend hd hdc).1,
      inevitable_of_cancelled hend hawakeEnd hd hdc⟩
  · intro results time hret
    have hstart : Winding w₀.executor ⟨w₀.nextCall, agents, task, prompts⟩ c w.now
        { c with isCancelled := true } [] :=
      ⟨hacc.brief, ⟨hacc.covered.ids, hacc.covered.keys, hacc.covered.ascending,
        hacc.covered.prepared⟩, rfl, rfl, fun _ hr => hr, fun _ hr => .inl hr⟩
    have hholds := (winding_invariant A w₀.executor
      (b := ⟨w₀.nextCall, agents, task, prompts⟩) hids).run hafter hsound' (hexec'.trans hexec)
      (hnext ▸ hk) hcall hstart ?_ fun _ => trivial
    · obtain ⟨d, later, hP, hlive, hgathered, hrem, rfl, htime, hlog⟩ :=
        hholds.over results time (mem_seenOf.2 ⟨hret, rfl⟩)
      refine ⟨htime, hP.covered.perm_keys hlive hgathered hrem, ?_,
        fun agent ha => hacc.wound_up hids hP hlive hgathered hrem ha⟩
      have hnone : d.toDispatch w.now = [] := by simp [TaskCall.toDispatch, hrem]
      rw [hlog, ← hP.dispatched, hnone]
      simp [Occurrence.isDispatch]
    · -- as long as the call is under way it is the time of the cancellation
      intro trace v hrun hon
      obtain ⟨d, hd⟩ := Option.ne_none_iff_exists'.1 hon
      exact ((hrun.still hsound' hawake' (hnext ▸ hk) hcancelled).2 d hd).2.trans hnow

/-- The executor when the first batch of its call is dispatched. -/
def midway : World := (Sample.begun.follow default [.caller 0]).2

/-- The call then. -/
def midwayCall : TaskCall := (midway.call? 0).getD default

/-- A call that is cancelled before the agent of its first batch is asked. -/
theorem Reachable.cancelled_met : ∃ results,
    let after := ((midway.cancelCall midwayCall).follow default (Sample.course.drop 1)).1
    .returned 0 results midway.now ∈ after.seen ∧
      (seenOf 0 after.seen).filter (·.isDispatch) = midwayCall.toDispatch midway.now ∧
      ∃ r, results.lookup "a" = some r ∧ r.failure?.map Prod.snd = some .cancelled := by
  have hcall : midway.call? 0 = some midwayCall :=
    (Option.getD_of_ne_none (by decide +kernel) default).symm
  have hnone : (midwayCall.finished.all fun r => r.agentId != "a") = true := by decide +kernel
  have hbefore : Run anyLaw Sample.begun (Sample.begun.follow default [.caller 0]).1 midway :=
    run_follow (fun _ _ => trivial) [.caller 0] (by decide +kernel)
  have hafter : Run anyLaw (midway.cancelCall midwayCall)
      ((midway.cancelCall midwayCall).follow default (Sample.course.drop 1)).1 _ :=
    run_follow (fun _ _ => trivial) (Sample.course.drop 1) (by decide +kernel)
  have hreturned : ∃ results time, .returned 0 results time ∈
      ((midway.cancelCall midwayCall).follow default (Sample.course.drop 1)).1.seen :=
    exists_returned (by decide +kernel)
  obtain ⟨results, time, hret⟩ := hreturned
  obtain ⟨_, _, _, hend⟩ := Reachable.cancelled (Sample.reachable_idle Sample.executor)
    (by decide +kernel) hbefore hcall hafter
  obtain ⟨rfl, _, hdispatched, hentries⟩ := hend results time hret
  obtain ⟨r, hlookup, _, _, _, hkind⟩ :=
    hentries (.create "a" "analyst" default "p" defaultProfile 1) (by simp [Sample.agents])
  exact ⟨results, hret, hdispatched, r, hlookup,
    hkind rfl (by simp [Sample.prompts]) (by simpa [Agent.create] using hnone)⟩

end World

end AgentSwarm
