/-
**Every call comes to an end.**

By itself an executor does two things: actors that are ready go on, in any order, and when none is
ready the clock goes to the next alarm.  Whatever it chooses, less is left to do afterwards, and as
long as a call is under way there is something to choose.  So a call that nobody abandons returns,
on every schedule.

Main definitions:

* `AgentSwarm.World.Tick` — what an executor does by itself;
* `AgentSwarm.World.Inevitable` — a call returns, whatever is chosen.

Main results:

* `AgentSwarm.World.exists_tick` — **no deadlock**;
* `AgentSwarm.World.Reachable.inevitable` — **every call returns** when the strategy lets at least
  one request through and the backend answers.
-/

import AgentSwarm.Proofs.Executor.Runs
import AgentSwarm.Proofs.Executor.Measure

set_option relaxedAutoImplicit false
set_option autoImplicit false

namespace AgentSwarm

/-- An executor that was made has permits. -/
theorem Executor.poolSize_pos {strategy : Strategy} {settings : ExecutorSettings}
    {x : Executor} (h : Executor.create strategy settings = .ok x) : 0 < x.poolSize := by
  obtain ⟨hvalid, _, rfl⟩ := Executor.create_eq_ok_iff.1 h
  have hrequests : strategy.maxRequests ≠ 0 := by
    intro hzero
    simp only [Strategy.validate, hzero, if_true] at hvalid
    split at hvalid <;> cases hvalid
  simp only [Executor.poolSize, Executor.maxPool]
  omega

namespace World

variable {A : BackendLaw} {w w' : World} {act : Action} {seen : List Occurrence} {k : Nat}
  {a : Actor}

/-! ### Ticks -/

/-- What an executor does by itself: an actor that is ready goes on, or when none is ready the clock
goes to the next alarm. -/
inductive Tick (A : BackendLaw) (w : World) : Action → List Occurrence → World → Prop
  | run {a : Actor} {response : Response} {seen : List Occurrence} {w' : World} :
      Lawful A w (.run a response) → w.step? (.run a response) = some (w', seen) →
      Tick A w (.run a response) seen w'
  | pass {time : Nat} {seen : List Occurrence} {w' : World} : w.nextAlarm = some time →
      w.step? (.pass time) = some (w', seen) → Tick A w (.pass time) seen w'

theorem Tick.step (h : Tick A w act seen w') : Step A w act seen w' := by
  cases h with
  | run hlaw hs => exact step_of_step? hs hlaw
  | pass _ hs => exact step_of_step? hs trivial

/-- **After a tick less is left to do.** -/
theorem Tick.measure_lt (h : Tick A w act seen w') (hs : w.Sound) (hw : w.Awake fun _ => False) :
    w'.measure < w.measure := by
  cases h with
  | run hlaw hstep =>
      obtain ⟨ha, hturn⟩ := turn_of_step? hstep hlaw
      exact hturn.measure_lt hs hw ha
  | pass hnext hstep =>
      cases step_of_step? (A := A) hstep trivial with
      | pass hready _ _ => exact measure_passTo_lt hw hready hnext

/-- A backend that answers a request has a lawful response. -/
theorem exists_lawful
    (hA : ∀ request, w.request? a = some request → ∃ response, A a.call request response) :
    ∃ response, Lawful A w (.run a response) := by
  cases hr : w.request? a with
  | none => exact ⟨default, by simp [Lawful, hr]⟩
  | some request =>
      obtain ⟨response, hA⟩ := hA request hr
      exact ⟨response, by simpa [Lawful, hr] using hA⟩

/-- Whoever is ready may go on, when the backend answers its request. -/
theorem exists_tick_of_ready (ha : a ∈ w.ready)
    (hA : ∀ request, w.request? a = some request → ∃ response, A a.call request response) :
    ∃ act seen w', Tick A w act seen w' := by
  obtain ⟨response, hlaw⟩ := exists_lawful hA
  have hstep : w.step? (.run a response) =
      some ((w.runActor a response).1, (w.runActor a response).2) := by simp [step?, ha]
  exact ⟨_, _, _, .run hlaw hstep⟩

/-- The clock may go to the next alarm when nobody is ready. -/
theorem tick_pass {time : Nat} (h : w.Awake fun _ => False) (hready : w.ready = [])
    (hnext : w.nextAlarm = some time) : Tick A w (.pass time) [] (w.passTo time) := by
  obtain ⟨hmem, hmin⟩ := List.min?_eq_some_iff.1 hnext
  obtain ⟨⟨time', a⟩, halarm, rfl⟩ := List.mem_map.1 hmem
  have hlt := (h.alarms _ _ halarm).1
  have hmay : w.mayPassTo time' = true := by
    simp only [mayPassTo, hready, List.isEmpty_nil, Bool.true_and, Bool.and_eq_true,
      decide_eq_true_eq, List.all_eq_true]
    exact ⟨hlt.le, fun alarm hmem => hmin _ (List.mem_map.2 ⟨alarm, hmem, rfl⟩)⟩
  exact .pass hnext (by simp [step?, hmay])

/-- A pool of which nobody holds a permit. -/
theorem held_eq_zero (h : ∀ c ∈ w.calls, ∀ i ∈ c.live, i.stage.holdsPermit = false)
    (key : Option String) : w.held key = 0 := by
  refine List.sum_eq_zero ?_
  intro n hn
  obtain ⟨c, hc, rfl⟩ := List.mem_map.1 hn
  refine List.sum_eq_zero ?_
  intro m hm
  obtain ⟨i, hi, rfl⟩ := List.mem_map.1 hm
  simp [Executor.permitIn, h c hc i hi]

/-- **When nobody is ready or waits for a time there are no calls.**  Otherwise all invocations would
wait for permits, and nobody would have one. -/
theorem Awake.calls_eq_nil (hs : w.Sound) (h : w.Awake fun _ => False)
    (hpool : 0 < w.executor.poolSize) (hready : w.ready = []) (halarms : w.alarms = []) :
    w.calls = [] := by
  have hqueues : ∀ a s, w.standing? a = some s → s.Queues := by
    intro a s hstand
    rcases h.awake a s hstand id with hr | hq | ⟨t, ht⟩
    · simp [hready] at hr
    · exact hq
    · simp [halarms] at ht
  have hhas : ∀ c ∈ w.calls, ∀ i ∈ c.live, w.Has c i := fun c hc i hi =>
    ⟨call?_of_mem hs.listed.ids_nodup hc,
      TaskCall.invocation?_of_mem (hs.listed.tidy c hc).places_nodup hi⟩
  have hqueued : ∀ c ∈ w.calls, ∀ i ∈ c.live, i.stage = .queued :=
    fun c hc i hi => (hqueues _ _ (hhas c hc i hi).standing?).2
  have hheld := held_eq_zero fun c hc i hi => by
    rw [hqueued c hc i hi]
    rfl
  refine List.eq_nil_iff_forall_not_mem.2 fun c hc => ?_
  cases hlive : c.live with
  | nil =>
      have hcall := call?_of_mem hs.listed.ids_nodup hc
      exact hqueues _ _ (standing?_caller hcall hlive)
  | cons i rest =>
      have hi : i ∈ c.live := by simp [hlive]
      have hwaiting : actorOf c i ∈ (w.pool (w.keyOf i)).waiting :=
        (hs.queued.mem_iff _ _).2 ⟨by simp, i, (hhas c hc i hi).unit?, hqueued c hc i hi, rfl⟩
      have hbusy := hs.queued.busy (w.keyOf i) (List.ne_nil_of_mem hwaiting)
      have hsum := hs.free_add_held (w.keyOf i)
      have := hheld (w.keyOf i)
      omega

/-- **No deadlock**: as long as there are calls, an actor is ready, or an alarm is set. -/
theorem exists_tick (hs : w.Sound) (h : w.Awake fun _ => False) (hpool : 0 < w.executor.poolSize)
    (hA : ∀ k request, ∃ response, A k request response) (hcalls : w.calls ≠ []) :
    ∃ act seen w', Tick A w act seen w' := by
  rcases List.eq_nil_or_concat w.ready with hready | ⟨others, a, hready⟩
  · cases hnext : w.nextAlarm with
    | some time => exact ⟨_, _, _, tick_pass h hready hnext⟩
    | none =>
        have halarms : w.alarms = [] := by simpa [nextAlarm] using hnext
        exact absurd (h.calls_eq_nil hs hpool hready halarms) hcalls
  · exact exists_tick_of_ready (a := a) (by simp [hready]) fun request _ => hA _ request

/-! ### What is bound to happen -/

/-- **A call returns, whatever the executor chooses**: there is a choice, and whatever is chosen, it
returns at once, or is bound to return then. -/
inductive Inevitable (A : BackendLaw) (k : Nat) : World → Prop
  | intro {w : World} : (∃ act seen w', Tick A w act seen w') →
      (∀ act seen w', Tick A w act seen w' → (∀ results time, .returned k results time ∉ seen) →
        Inevitable A k w') → Inevitable A k w

/-- In a step a call that is not abandoned goes on or returns. -/
theorem Step.call? (h : Step A w act seen w') (hs : w.Sound) (hact : act ≠ .abandon k)
    (hc : w.call? k ≠ none) (hret : ∀ results time, .returned k results time ∉ seen) :
    w'.call? k ≠ none := by
  intro hgone
  obtain ⟨c, hsome⟩ := Option.ne_none_iff_exists'.1 hc
  have hlt := hs.listed.id_lt c (mem_calls_of_call? hsome)
  rw [id_of_call? hsome] at hlt
  rcases h.gone_cases hs hlt hgone with hnone | habandon | ⟨results, time, hmem⟩
  · exact hc hnone
  · exact hact habandon
  · exact hret results time hmem

/-- A call is bound to return when there is always a choice as long as it is under way. -/
theorem inevitable_of_tick {J : World → Prop}
    (hJ : ∀ v act seen v', v.Sound → (v.Awake fun _ => False) → J v → Tick A v act seen v' → J v')
    (htick : ∀ v, v.Sound → (v.Awake fun _ => False) → J v → v.call? k ≠ none →
      ∃ act seen v', Tick A v act seen v')
    (hs : w.Sound) (h : w.Awake fun _ => False) (hw : J w) (hc : w.call? k ≠ none) :
    Inevitable A k w := by
  -- the induction is on what is left to do
  induction hmeasure : w.measure using WellFoundedLT.induction generalizing w with
  | ind measure ih =>
      refine .intro (htick w hs h hw hc) ?_
      intro act seen w' ht hret
      have hlt := ht.measure_lt hs h
      rw [hmeasure] at hlt
      have hact : act ≠ .abandon k := by
        rintro rfl
        cases ht
      exact ih _ hlt (ht.step.sound hs) (ht.step.awake hs h) (hJ _ _ _ _ hs h hw ht)
        (ht.step.call? hs hact hc hret) rfl

/-- **Every call returns**, whatever other calls there are, when the strategy lets requests through
and the backend answers. -/
theorem Reachable.inevitable {x : Executor} (hw : Reachable x w) (hpool : 0 < x.poolSize)
    (hA : ∀ k request, ∃ response, A k request response) (hc : w.call? k ≠ none) :
    Inevitable A k w := by
  refine inevitable_of_tick (J := fun v => v.executor = x)
    (fun _ _ _ _ _ _ hv ht => ht.step.executor_eq.trans hv) ?_ hw.sound hw.awake
    hw.executor_eq hc
  intro v hs h hx hcall
  refine exists_tick hs h (hx ▸ hpool) hA ?_
  intro hnil
  simp [World.call?, hnil] at hcall

/-- A call that is not abandoned is under way until it returns. -/
theorem Run.returned_or_on {trace : Trace} (hrun : Run A w trace w') (hs : w.Sound)
    (hc : w.call? k ≠ none) (habandon : .abandon k ∉ trace.map Prod.fst) :
    (∃ results time, .returned k results time ∈ trace.seen) ∨ w'.call? k ≠ none := by
  induction hrun with
  | refl => exact .inr hc
  | @step trace v v' act seen hrun hlaw hstep ih =>
      simp only [List.map_append, List.mem_append, List.map_cons, List.map_nil,
        List.mem_singleton, not_or] at habandon
      rw [Trace.seen_append, Trace.seen_singleton]
      rcases ih habandon.1 with ⟨results, time, hret⟩ | hcall
      · exact .inl ⟨results, time, List.mem_append_left _ hret⟩
      · by_cases hret : ∃ results time, .returned k results time ∈ seen
        · obtain ⟨results, time, hret⟩ := hret
          exact .inl ⟨results, time, List.mem_append_right _ hret⟩
        · refine .inr ((step_of_step? hstep hlaw).call? (hrun.sound hs).1 ?_ hcall ?_)
          · exact fun he => habandon.2 he.symm
          · exact fun results time hmem => hret ⟨results, time, hmem⟩

end World

end AgentSwarm
