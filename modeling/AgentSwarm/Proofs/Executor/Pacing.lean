/-
**The only call of an executor keeps to its timetable.**

Without quotas, and with pools that hold as many agents as a batch may have, a call that has the
executor for itself never waits for a permit: the permits of a pool are held by invocations of its
batch, and of these there are never too many.  So an invocation that is ready sends its request, and
nobody lets the clock go on while somebody is ready.

A caller in a pause is in time as well, which the state of its call does not say: its alarm is set to
the time of the next batch.  This is added to the invariant between turns.

Main definitions:

* `AgentSwarm.Pace.Suits` — an executor that lets a call go by its timetable;
* `AgentSwarm.World.Paced`, `AgentSwarm.World.OnTime` — the only call is on pace, in the midst of a
  turn and between turns;
* `AgentSwarm.World.Keeps` — the only call keeps to its timetable, and has returned or not.

Main results:

* `AgentSwarm.World.Paced.free_pos` — **there always is a permit**;
* `AgentSwarm.World.Acts.keeps`, `AgentSwarm.World.OnTime.pass` — turns and the clock keep a call on
  pace;
* `AgentSwarm.World.Run.keeps` — **the only call keeps to its timetable**.
-/

import AgentSwarm.Proofs.Executor.Progress
import AgentSwarm.Proofs.Executor.Timetable
import AgentSwarm.Proofs.Strategy.Rounds

set_option relaxedAutoImplicit false
set_option autoImplicit false

namespace AgentSwarm

/-- Those who hold permits of a pool are among those who use it. -/
theorem Executor.sum_permitIn_le (x : Executor) (key : Option String) (live : List Invocation) :
    (live.map (x.permitIn key)).sum ≤ live.countP fun i => x.poolOf i.agent.partition == key := by
  induction live with
  | nil => exact Nat.zero_le _
  | cons i rest ih =>
      have hfirst : x.permitIn key i ≤ if x.poolOf i.agent.partition == key then 1 else 0 := by
        simp only [Executor.permitIn, beq_iff_eq]
        split <;> split <;> simp_all
      rw [List.map_cons, List.sum_cons, List.countP_cons]
      omega

/-! ### Executors without obstacles -/

/-- The executor has the times of a timetable, no quotas, and pools that suffice for its batches. -/
structure Pace.Suits (p : Pace) (x : Executor) : Prop where
  batches : p.batches = x.batches p.brief.agents
  unlimited : x.settings.partitionQuotas = []
  delay : x.strategy.pause = .ofMillis p.delay
  limit : x.settings.agentTimeout = .ofMillis p.limit
  least : x.strategy.maxRequests ≠ 0
  most : x.strategy.maxRequests ≤ 256

namespace Pace.Suits

variable {p : Pace} {x : Executor}

/-- A request takes as long as the timetable says. -/
theorem curtail (h : p.Suits x) {response : Response} {place : Nat}
    (hlatency : response.latency = p.latency place) : (x.curtail response).1 = p.cost place := by
  have hlimit : x.settings.agentTimeout.ceilMillis = p.limit := by
    rw [h.limit, Duration.ceilMillis_ofMillis]
  simp only [Executor.curtail, hlimit, Pace.cost, ← hlatency]
  split <;> omega

/-- **A pool suffices for the agents of a batch** that share it. -/
theorem countP_le (h : p.Suits x) {batch : List Nat} (hb : batch ∈ p.batches) (key : Option String) :
    batch.countP (fun place => (p.brief.agents[place]?).map (fun a => x.poolOf a.partition) == some key) ≤
      x.poolSize := by
  rw [h.batches] at hb
  have hfits := Strategy.fits_of_mem_plan hb
  have hleast := h.least
  have hmost := h.most
  have hsize : max x.strategy.maxRequests 1 ≤ x.poolSize := by
    simp only [Executor.poolSize, Executor.maxPool]
    omega
  refine Nat.le_trans ?_ hsize
  cases hrouted : x.strategy.routed with
  | false => exact List.countP_le_length.trans (hfits.total hrouted)
  | true =>
      cases key with
      | none =>
          -- with routing nobody uses the common pool
          rw [List.countP_eq_zero.2]
          · exact Nat.zero_le _
          · intro place _
            cases p.brief.agents[place]? <;> simp [Executor.poolOf, hrouted]
      | some partition =>
          refine Nat.le_trans (List.countP_mono_left fun place _ hplace => ?_)
            (hfits.partition hrouted partition)
          simpa [Executor.poolOf, hrouted] using hplace

end Pace.Suits

namespace World

variable {p : Pace} {A : BackendLaw} {w w' v : World} {a : Actor} {c d : TaskCall} {i : Invocation}
  {log seen : List Occurrence} {response : Response}

/-- Without quotas every request is admitted. -/
theorem checkQuota_of_suits (h : p.Suits w.executor) (partition : String) :
    w.checkQuota partition = .ok none := by
  simp [checkQuota, Executor.quotaOf, h.unlimited]

/-! ### The only call -/

/-- The only call of a world is on pace. -/
structure Paced (p : Pace) (w : World) (c : TaskCall) (log : List Occurrence) : Prop where
  suits : p.Suits w.executor
  call : w.call? p.brief.id = some c
  alone : ∀ k, k ≠ p.brief.id → w.call? k = none
  onPace : p.OnPace w.now c log

namespace Paced

/-- Whoever acts belongs to the only call. -/
theorem eq_of_call? (h : w.Paced p c log) {k : Nat} (hd : w.call? k = some d) : d = c := by
  by_cases hk : k = p.brief.id
  · rw [hk, h.call] at hd
    exact (Option.some.inj hd).symm
  · rw [h.alone k hk] at hd
    cases hd

theorem tidy (h : w.Paced p c log) (hs : w.Sound) : c.Tidy :=
  hs.listed.tidy c (mem_calls_of_call? h.call)

/-- There is one call only. -/
theorem calls_eq (h : w.Paced p c log) (hs : w.Sound) : w.calls = [c] := by
  have hall : ∀ d ∈ w.calls, d = c := fun d hd =>
    h.eq_of_call? (call?_of_mem hs.listed.ids_nodup hd)
  have hrep := List.eq_replicate_of_mem hall
  have hnodup : w.calls.Nodup := List.Nodup.of_map _ hs.listed.ids_nodup
  have hmem : c ∈ w.calls := mem_calls_of_call? h.call
  rw [hrep, List.nodup_replicate] at hnodup
  have hlength := List.length_pos_of_mem hmem
  rw [hrep, show w.calls.length = 1 by omega]
  rfl

/-- **There always is a permit** for an invocation that has not run yet: the others of its pool that
are live are fewer than the pool has permits. -/
theorem free_pos (h : w.Paced p c log) (hs : w.Sound) (hi : w.Has c i) (hfresh : i.stage = .fresh) :
    0 < (w.pool (w.keyOf i)).free := by
  have hn := (h.tidy hs).places_nodup
  obtain ⟨n, batch, hbatch, hbusy, _⟩ := h.onPace.live hi.mem_live
  -- those who use the pool stand at places of the batch
  have hkind : ∀ j ∈ c.live, ((p.brief.agents[j.place]?).map
      (fun a => w.executor.poolOf a.partition) == some (w.keyOf i)) = (w.keyOf j == w.keyOf i) := by
    intro j hj
    simp [(hbusy.live j hj).1.place, keyOf]
  have hplaces : (c.live.map (·.place)).countP (fun place => (p.brief.agents[place]?).map
      (fun a => w.executor.poolOf a.partition) == some (w.keyOf i)) ≤ w.executor.poolSize := by
    refine Nat.le_trans ((hn.subperm ?_).countP_le _)
      (h.suits.countP_le (List.mem_of_getElem? hbatch) (w.keyOf i))
    intro place hplace
    obtain ⟨j, hj, rfl⟩ := List.mem_map.1 hplace
    exact (hbusy.live j hj).2.1
  rw [List.countP_map, List.countP_congr (q := fun j => w.keyOf j == w.keyOf i)
    fun j hj => by simpa using congrArg (· = true) (hkind j hj)] at hplaces
  -- and one of them has no permit
  have hheld : w.held (w.keyOf i) + 1 ≤ c.live.countP fun j => w.keyOf j == w.keyOf i := by
    have hperm := Pace.OnPace.perm_live hn hi.unit
    have hnone : w.executor.permitIn (w.keyOf i) i = 0 := by
      simp [Executor.permitIn, hfresh, Stage.holdsPermit]
    have hothers : ((c.without i.place).live.map (w.executor.permitIn (w.keyOf i))).sum ≤
        (c.without i.place).live.countP fun j => w.keyOf j == w.keyOf i :=
      w.executor.sum_permitIn_le _ _
    rw [hperm.countP_eq]
    have hsum := (hperm.map (w.executor.permitIn (w.keyOf i))).sum_eq
    simp only [List.map_cons, List.sum_cons, hnone, Nat.zero_add] at hsum
    simp only [held, World.total, h.calls_eq hs, List.map_cons, List.map_nil, List.sum_singleton,
      TaskCall.total, hsum, List.countP_cons, beq_self_eq_true, if_true]
    omega
  have hsum := hs.free_add_held (w.keyOf i)
  omega

/-- The world may change as long as its only call stays on pace. -/
theorem frame (h : w.Paced p c log) {more : List Occurrence} (hx : v.executor = w.executor)
    (hnow : v.now = w.now) (hcall : v.call? p.brief.id = some d)
    (halone : ∀ k, k ≠ p.brief.id → v.call? k = none) (hon : p.OnPace w.now d more) :
    v.Paced p d more :=
  ⟨hx ▸ h.suits, hcall, halone, hnow ▸ hon⟩

/-- The only call may be written as long as it stays on pace. -/
theorem putCall (h : w.Paced p c log) {more : List Occurrence} (hx : v.executor = w.executor)
    (hnow : v.now = w.now) (hcalls : v.calls = (w.putCall d).calls)
    (hon : p.OnPace w.now d more) : v.Paced p d more := by
  have hid : d.id = p.brief.id := hon.id_eq
  refine h.frame hx hnow ?_ ?_ hon
  · rw [call?_congr hcalls, ← hid]
    exact call?_putCall_self (hid ▸ h.call)
  · intro k hk
    rw [call?_congr hcalls, call?_putCall_of_ne (by rwa [hid])]
    exact h.alone k hk

end Paced

/-! ### Turns -/

/-- The law of a backend that gives one response. -/
def onlyLaw (response : Response) : BackendLaw := fun _ _ r => r = response

/-- An actor's response takes the time of its place. -/
def TakesItsTime (p : Pace) (a : Actor) (response : Response) (seen : List Occurrence) : Prop :=
  ∀ place q t, a = .invocation p.brief.id place → .sent p.brief.id q t ∈ seen →
    response.latency = p.latency place

theorem TakesItsTime.of_append {later : List Occurrence}
    (h : TakesItsTime p a response (seen ++ later)) :
    TakesItsTime p a response seen ∧ TakesItsTime p a response later :=
  ⟨fun place q t ha hq => h place q t ha (List.mem_append_left _ hq),
    fun place q t ha hq => h place q t ha (List.mem_append_right _ hq)⟩

/-- **What an actor does on its way keeps the only call on pace**; it neither dispatches a batch nor
begins a pause. -/
theorem Move.paced (hm : Move (onlyLaw response) a w seen w') (hs : w.Sound)
    (h : w.Paced p c log) (htime : TakesItsTime p a response seen) :
    ∃ d, w'.Paced p d (log ++ seen) ∧ d.isPausing = c.isPausing ∧ d.dispatched = c.dispatched := by
  have hn := (h.tidy hs).places_nodup
  cases hm with
  | @start _ d i hi hc hfresh =>
      obtain rfl := h.eq_of_call? hi.call
      refine ⟨_, h.putCall rfl rfl rfl (h.onPace.adjust (f := fun j => { j with startedAt := w.now })
        hn hi.unit (fun _ => rfl) rfl rfl fun t hin => ⟨?_, rfl⟩), rfl, rfl⟩
      cases hin with
      | early hstage hnow => exact .early hstage hnow
      | calling hstage hle => exact .calling hstage hle
  | @take _ d i hi hc hfresh hfree =>
      obtain rfl := h.eq_of_call? hi.call
      refine ⟨_, h.putCall rfl rfl rfl (h.onPace.adjust (f := fun j => { j with stage := .admitted })
        hn hi.unit (fun _ => rfl) rfl rfl fun t hin => ⟨?_, ?_⟩), rfl, rfl⟩
      · cases hin with
        | early _ hnow => exact .early (.inr rfl) hnow
        | calling hstage =>
            rw [hfresh] at hstage
            cases hstage
      · rw [List.nil_append, Brief.outstanding, Brief.outstanding, hfresh]
        rfl
  | @send _ d i due r hi hc hstage hq hA =>
      obtain rfl := h.eq_of_call? hi.call
      obtain rfl : r = response := hA
      have hsent : .sent p.brief.id (requestOf d i) w.now ∈
          [Occurrence.sent d.id (requestOf d i) w.now] := by simp [h.onPace.id_eq]
      have hcost := h.suits.curtail (htime i.place _ _ (by rw [actorOf, h.onPace.id_eq]) hsent)
      have hcalling : i.stage.isCalling = false := by
        rcases hstage with hstage | hstage <;> rw [hstage] <;> rfl
      have hsend := h.onPace.send (w.executor.curtail r).2 hn hi.unit hcalling
      rw [hcost]
      refine ⟨_, h.putCall ?_ ?_ ?_ hsend, rfl, rfl⟩
      all_goals cases due <;> rfl
  | @report _ d hc hlive =>
      obtain rfl := h.eq_of_call? hc
      exact ⟨_, h.putCall rfl rfl rfl (h.onPace.report hlive), rfl, rfl⟩

/-- The only call is on pace, and when it pauses its caller wakes up in time. -/
structure OnTime (p : Pace) (w : World) (c : TaskCall) (log : List Occurrence) : Prop
    extends w.Paced p c log where
  asleep : c.isPausing = true → ∀ t, (t, .caller p.brief.id) ∈ w.alarms → t = p.dispatchAt c.dispatched
  risen : c.isPausing = true → .caller p.brief.id ∈ w.ready → w.now = p.dispatchAt c.dispatched

/-- **The only call keeps to its timetable**: it is on pace, or it has returned and there is none. -/
def Keeps (p : Pace) (w : World) (log : List Occurrence) : Prop :=
  (∃ c, w.OnTime p c log) ∨ (∀ k, w.call? k = none) ∧ p.CallLog log

/-- A call that does not pause is on time when it is on pace. -/
theorem Paced.keeps (h : w.Paced p c log) (hp : c.isPausing = false) : w.Keeps p log :=
  .inl ⟨c, h, by simp [hp], by simp [hp]⟩

/-- An invocation of a call on pace gives its permit to nobody. -/
theorem Paced.granted (h : w.Paced p c log) (hg : Granted c d) : d = c := by
  cases hg with
  | same => rfl
  | given hj hqueued =>
      have hstage := h.onPace.stage_eq (TaskCall.mem_live_of_invocation? hj)
      simp [hqueued] at hstage

/-- The only call stays on pace when a request has had its time. -/
theorem Paced.finish (h : w.Paced p c log) (hs : w.Sound) (hi : w.Has c i) {endsAt : Nat}
    {ending : Ending} (hstage : i.stage = .calling endsAt ending) (hle : endsAt ≤ w.now) :
    (w.finish c.id i ending).Paced p
      (c.settle i (w.executor.resultOf i.agent i.serial i.startedAt w.now ending))
      (log ++ endedIf c.id i) := by
  have hn := (h.tidy hs).places_nodup
  have hsteady := steady_finish w c.id i ending
  have hfate := fate_finish (A := anyLaw) hs.queued hi
    (.inr ⟨h.onPace.kept, endsAt, hstage, hle⟩)
  obtain ⟨d, hgrant, hunit, hcall, he⟩ := finish_eq hs.queued hi ending
  obtain rfl := h.granted hgrant
  refine h.frame hsteady.executor hsteady.now ?_ (fun k hk => ?_)
    (h.onPace.settle hn hunit hstage hle _)
  · have hput := call?_putCall_self (w := w.detach d.id i)
      (c := d.settle i (w.executor.resultOf i.agent i.serial i.startedAt w.now ending)) hcall
    rw [he, ← h.onPace.id_eq]
    dsimp only
    split <;> exact hput
  · have hother := hfate k
    rw [h.alone k hk] at hother
    exact hother.of_none.1

/-- A caller that does not pause any more, or need not, dispatches the next batch at its time. -/
theorem Paced.now_eq (h : w.Paced p c log) (hlive : c.live = []) (hp : w.pauses c = false)
    (hdue : c.isPausing = true → w.now = p.dispatchAt c.dispatched) :
    w.now = p.dispatchAt c.dispatched := by
  cases hpausing : c.isPausing with
  | true => exact hdue hpausing
  | false =>
      rw [(h.onPace.batches_over hlive).2.1 hpausing]
      cases hd : c.dispatched with
      | zero => rfl
      | succ n =>
          -- between two batches there is no pause only when it is none
          have hzero : p.delay = 0 := by
            simpa [pauses, hd, h.onPace.kept, hpausing, h.suits.delay, Duration.isZero,
              Duration.ofMillis] using hp
          rw [Pace.dispatchAt_succ, hzero]
          rfl

/-- **What an actor does at the end of its turn**, when a caller that pauses acts at the time of the
next batch only. -/
theorem LastMove.keeps (hm : LastMove a w seen w') (hs : w.Sound) (haway : w.Away a)
    (h : w.Paced p c log)
    (hdue : c.isPausing = true → w.now = p.dispatchAt c.dispatched) : w'.Keeps p (log ++ seen) := by
  cases hm with
  | @enqueue _ d i hi _ hfresh hfree =>
      -- there is a permit
      obtain rfl := h.eq_of_call? hi.call
      have := h.free_pos hs hi hfresh
      omega
  | @throttle _ d i time hi _ _ hq =>
      -- there are no quotas
      rw [checkQuota_of_suits h.suits] at hq
      cases hq
  | @await _ d i endsAt ending hi _ _ _ =>
      obtain rfl := h.eq_of_call? hi.call
      rw [List.append_nil]
      have hpaced : (w.sleepUntil endsAt (actorOf d i)).Paced p d log :=
        h.frame rfl rfl h.call h.alone h.onPace
      exact hpaced.keeps (h.onPace.not_pausing (List.ne_nil_of_mem hi.mem_live))
  | @finish _ d i ending hi hending =>
      obtain rfl := h.eq_of_call? hi.call
      obtain ⟨hcancelled, _⟩ | ⟨_, endsAt, hstage, hle⟩ := hending
      · rw [h.onPace.kept] at hcancelled
        cases hcancelled
      · exact (h.finish hs hi hstage hle).keeps
          (h.onPace.not_pausing (List.ne_nil_of_mem hi.mem_live))
  | @pause _ d hc hlive hgathered hrem hp =>
      obtain rfl := h.eq_of_call? hc
      simp only [pauses, Bool.and_eq_true, Bool.not_eq_true', decide_eq_true_eq] at hp
      obtain ⟨hon, htime⟩ := h.onPace.pause hlive hgathered hrem hp.2 hp.1.1.1
      have hdelay : w.executor.strategy.pause.ceilMillis = p.delay := by
        rw [h.suits.delay, Duration.ceilMillis_ofMillis]
      rw [List.append_nil]
      rw [h.onPace.id_eq] at haway
      refine .inl ⟨{ d with isPausing := true }, h.putCall rfl rfl rfl hon, fun _ t ht => ?_,
        fun _ hready => absurd hready haway.ready⟩
      rcases List.mem_append.1 ht with ht | ht
      · exact absurd ht (haway.alarms t)
      · obtain ⟨rfl, _⟩ := Prod.mk.inj (List.mem_singleton.1 ht)
        rw [hdelay, htime]
  | @dispatch _ d batch rest hc hlive hgathered hrem hp =>
      obtain rfl := h.eq_of_call? hc
      have hnow := h.now_eq hlive (by simpa using hp) hdue
      have hon := h.onPace.dispatch w.nextSerial hlive hgathered hrem hnow
      have hpaced : (w.dispatch d batch rest).1.Paced p _ _ := h.putCall rfl rfl rfl hon
      exact hpaced.keeps rfl
  | @leave _ d hc hlive hgathered hrem =>
      obtain rfl := h.eq_of_call? hc
      refine .inr ⟨fun k => ?_, h.onPace.leave hlive hgathered hrem d.results⟩
      rw [call?_dropCall]
      split
      · rfl
      next hk => exact h.alone k (by rwa [← h.onPace.id_eq])

/-- **An actor that acts keeps the only call to its timetable.** -/
theorem Acts.keeps (ha : Acts (onlyLaw response) a w seen w') (hs : w.Sound)
    (hawake : w.Awake (· = a)) (haway : w.Away a) (h : w.Paced p c log)
    (hdue : c.isPausing = true → w.now = p.dispatchAt c.dispatched)
    (htime : TakesItsTime p a response seen) : w'.Keeps p (log ++ seen) := by
  induction ha generalizing c log with
  | last hm => exact hm.keeps hs haway h hdue
  | move hm _ ih =>
      obtain ⟨hfirst, hlater⟩ := htime.of_append
      obtain ⟨d, hd, hpausing, hdispatched⟩ := hm.paced hs h hfirst
      obtain ⟨hawake', haway'⟩ := hm.awake hawake haway
      rw [← List.append_assoc]
      refine ih (hm.sound hs) hawake' haway' hd ?_ hlater
      rw [hpausing, hdispatched, hm.steady.now]
      exact hdue

/-! ### Steps -/

/-- A caller that pauses and is ready acts in time. -/
theorem OnTime.due (h : w.OnTime p c log) (hawake : w.Awake fun _ => False) (ha : a ∈ w.ready)
    (hp : c.isPausing = true) : w.now = p.dispatchAt c.dispatched := by
  have hlive : c.live = [] := by
    by_contra hne
    rw [h.onPace.not_pausing hne] at hp
    cases hp
  refine h.risen hp ?_
  -- nobody else is there who could be ready
  obtain ⟨s, hs, _⟩ := hawake.ready a ha
  obtain ⟨d, hd, _⟩ := Option.bind_eq_some_iff.1 hs
  obtain rfl := h.eq_of_call? hd
  have hid : a.call = p.brief.id := by
    rw [← h.onPace.id_eq]
    exact (id_of_call? hd).symm
  cases a with
  | caller k => rwa [← show k = p.brief.id from hid]
  | invocation k place =>
      rw [standing?_eq_none (k := k) place hd hlive] at hs
      cases hs

/-- **The clock keeps the only call on time**: it goes no further than to the next alarm, and nobody
is ready. -/
theorem OnTime.pass {time : Nat} (h : w.OnTime p c log) (hs : w.Sound)
    (hawake : w.Awake fun _ => False) (hready : w.ready = []) (hle : w.now ≤ time)
    (halarms : ∀ alarm ∈ w.alarms, time ≤ alarm.1) : (w.passTo time).OnTime p c log := by
  have hn := (h.tidy hs).places_nodup
  have hcall : w.call? c.id = some c := h.onPace.id_eq ▸ h.call
  -- who is not ready waits for a time
  have hwaits : ∀ a s, w.standing? a = some s → s.Queues ∨ ∃ t, (t, a) ∈ w.alarms ∧ s.Sleeps t := by
    intro a s hstand
    rcases hawake.awake a s hstand id with hr | hq | ⟨t, ht⟩
    · simp [hready] at hr
    · exact .inl hq
    · obtain ⟨_, s', hs', hsleeps⟩ := hawake.alarms t a ht
      obtain rfl := Option.some.inj (hstand.symm.trans hs')
      exact .inr ⟨t, ht, hsleeps⟩
  have hcaller : c.live = [] → c.isPausing = true ∧ time ≤ p.dispatchAt c.dispatched := by
    intro hlive
    rcases hwaits _ _ (standing?_caller hcall hlive) with hq | ⟨t, ht, _, hp⟩
    · exact hq.elim
    · rw [h.onPace.id_eq] at ht
      exact ⟨hp, h.asleep hp t ht ▸ halarms _ ht⟩
  have hon : p.OnPace time c log := by
    refine h.onPace.pass hle (fun i hi => ?_) hcaller
    have hhas : w.Has c i := ⟨hcall, TaskCall.invocation?_of_mem hn hi⟩
    have hfirst := h.onPace.stage_eq hi
    rcases hwaits _ _ hhas.standing? with ⟨_, hqueued⟩ | ⟨t, ht, _, hthrottled | ⟨ending, hstage⟩⟩
    · simp [hqueued] at hfirst
    · simp [hthrottled] at hfirst
    · exact ⟨t, ending, hstage, halarms _ ht⟩
  refine ⟨⟨h.suits, h.call, h.alone, hon⟩, fun hp t ht => ?_, fun hp hr => ?_⟩
  · exact h.asleep hp t (List.mem_filter.1 ht).1
  · -- whose alarm is due has it now
    rw [show (w.passTo time).ready = w.ready ++ (w.alarms.filter (·.1 ≤ time)).map Prod.snd from rfl,
      hready, List.nil_append] at hr
    obtain ⟨⟨t, b⟩, ht, hb⟩ := List.mem_map.1 hr
    obtain ⟨ht, hdue⟩ := List.mem_filter.1 ht
    obtain rfl : b = .caller p.brief.id := hb
    have hlatest := halarms _ ht
    have hat := h.asleep hp t ht
    simp only [decide_eq_true_eq] at hdue
    change time = _
    omega

/-- Without calls there is nothing to see. -/
theorem still_of_step? {act : Action} (h : ∀ k, w.call? k = none)
    (hstep : w.step? act = some (w', seen))
    (hact : ∀ agents task prompts, act ≠ .begin agents task prompts) :
    seen = [] ∧ ∀ k, w'.call? k = none := by
  cases act with
  | begin agents task prompts => exact absurd rfl (hact agents task prompts)
  | run a r =>
      have hnone : ({ w with ready := w.ready.erase a } : World).call? a.call = none := h a.call
      simp only [step?, runActor, hnone, Option.ite_none_right_eq_some, Option.some.injEq,
        Prod.mk.injEq] at hstep
      obtain ⟨_, rfl, rfl⟩ := hstep
      exact ⟨rfl, h⟩
  | cancel k => simp [step?, h k] at hstep
  | abandon k => simp [step?, h k] at hstep
  | pass time =>
      simp only [step?, Option.ite_none_right_eq_some, Option.some.injEq, Prod.mk.injEq] at hstep
      obtain ⟨_, rfl, rfl⟩ := hstep
      exact ⟨rfl, h⟩

/-- What would disturb a call: another one, and being given up. -/
def Disturbs (k : Nat) : Action → Prop
  | .begin _ _ _ => True
  | .cancel j | .abandon j => j = k
  | .run _ _ | .pass _ => False

/-- **Every step keeps the only call to its timetable.** -/
theorem Keeps.step {act : Action} (h : w.Keeps p log) (hs : w.Sound)
    (hawake : w.Awake fun _ => False) (hstep : w.step? act = some (w', seen))
    (hact : ¬ Disturbs p.brief.id act)
    (htime : ∀ a r, act = .run a r → TakesItsTime p a r seen) : w'.Keeps p (log ++ seen) := by
  rcases h with ⟨c, h⟩ | ⟨hnone, hlog⟩
  case inr =>
    obtain ⟨rfl, hnone'⟩ := still_of_step? hnone hstep
      (by rintro _ _ _ rfl; exact hact trivial)
    rw [List.append_nil]
    exact .inr ⟨hnone', hlog⟩
  cases act with
  | begin => exact absurd trivial hact
  | cancel k | abandon k =>
      have hk : w.call? k = none := h.alone k hact
      simp [step?, hk] at hstep
  | run a response =>
      obtain ⟨ha, hturn⟩ := turn_of_step? (A := onlyLaw response) hstep fun _ _ => rfl
      have hpaced : (w.rise a).Paced p c log := ⟨h.suits, h.call, h.alone, h.onPace⟩
      cases hturn with
      | idle =>
          rw [List.append_nil]
          exact .inl ⟨c, hpaced, h.asleep, fun hp hr => h.risen hp (List.mem_of_mem_erase hr)⟩
      | acts hacts =>
          exact hacts.keeps (hs.rise a) ((hawake.rise a).excuse fun b hb => hb.resolve_left id)
            (hawake.away_rise ha) hpaced (h.due hawake ha) (htime a response rfl)
  | pass time =>
      cases step_of_step? hstep (lawful_anyLaw w _) with
      | pass hready hle halarms =>
          rw [List.append_nil]
          exact .inl ⟨c, h.pass hs hawake hready hle halarms⟩

/-- **A run in which nothing disturbs the only call keeps it to its timetable.** -/
theorem Run.keeps {trace : Trace} (hrun : Run A w trace w') (hs : w.Sound)
    (hawake : w.Awake fun _ => False) (h : w.Keeps p [])
    (hacts : ∀ act ∈ trace.map Prod.fst, ¬ Disturbs p.brief.id act)
    (htime : ∀ a r seen, (.run a r, seen) ∈ trace → TakesItsTime p a r seen) :
    w'.Keeps p trace.seen := by
  induction hrun with
  | refl => exact h
  | @step trace v v' act seen hrun hlaw hstep ih =>
      have hbefore := ih (fun act hmem => hacts act (by simp [hmem]))
        fun a r seen hmem => htime a r seen (List.mem_append_left _ hmem)
      rw [Trace.seen_append, Trace.seen_singleton]
      refine hbefore.step (hrun.sound hs).1 (hrun.awake hs hawake) hstep (hacts act (by simp)) ?_
      rintro a r rfl
      exact htime a r seen (by simp)

/-- A call that begins when there is no other is on time. -/
theorem onTime_beginCall {agents : List Agent} {task : Task} {prompts : PromptBuilder}
    (hs : w.Sound) (hnone : w.calls = []) (hp : p.Suits w.executor)
    (hbrief : p.brief = ⟨w.nextCall, agents, task, prompts⟩) (hstart : p.start = w.now) :
    (w.beginCall agents task prompts).OnTime p (newCall w agents task prompts) [] := by
  have hid : p.brief.id = w.nextCall := congrArg Brief.id hbrief
  have hagents : p.brief.agents = agents := congrArg Brief.agents hbrief
  refine ⟨⟨hp, ?_, fun k hk => ?_, ?_⟩, by simp [newCall], by simp [newCall]⟩
  · rw [hid]
    exact hs.listed.call?_beginCall_self agents task prompts
  · rw [call?_beginCall _ _ _ _ (by rwa [← hid]), call?, hnone]
    rfl
  · refine ⟨hbrief.symm, rfl, ?_, .between .none rfl rfl (fun _ => hstart.symm) (by simp [newCall])⟩
    rw [hp.batches, hagents]
    rfl

/-- A call that is under way has not been seen to return. -/
theorem Run.not_returned {k : Nat} {trace : Trace} (hrun : Run A w trace w') (hs : w.Sound)
    (hc : w.call? k = some c) (hon : w'.call? k = some d) :
    ∀ results time, .returned k results time ∉ trace.seen := by
  have hlt := hs.listed.id_lt c (mem_calls_of_call? hc)
  rw [id_of_call? hc] at hlt
  have hI : CourseInvariant A w.executor (fun _ => True) True fun _ _ => True :=
    ⟨fun _ _ _ => trivial, fun _ _ => trivial⟩
  have hholds := hI.run hrun hs rfl hlt hc trivial (fun _ _ _ _ => trivial) fun _ => trivial
  rw [hon] at hholds
  exact fun results time hmem => hholds.2.2 results time (mem_seenOf.2 ⟨hmem, rfl⟩)

/-- **The only call of an executor keeps to its timetable**, when there are no quotas and a strategy
asks for no more than 256 requests at once.  Whatever the order in which actors go on, its batches
are dispatched as they are planned: the first one at the start, each other one a pause after the end
of the one before.  A batch ends when the slowest of its requests has ended, by its reply or by the
timeout, or at once when nobody is asked.  All requests of a batch are sent when it is dispatched,
and have ended before the next one is.  The call returns at the end of the last batch, and is bound
to; so there is a pause between each two batches and no other. -/
theorem Reachable.timetable {strategy : Strategy} {settings : ExecutorSettings} {x : Executor}
    {agents : List Agent} {task : Task} {prompts : PromptBuilder} {trace : Trace}
    {delay limit : Nat} {latency : Nat → Nat}
    (hx : Executor.create strategy settings = .ok x) (hmost : strategy.maxRequests ≤ 256)
    (hquotas : settings.partitionQuotas = []) (hdelay : strategy.pause = .ofMillis delay)
    (hlimit : settings.agentTimeout = .ofMillis limit) (hw : Reachable x w) (hnone : w.calls = [])
    (hA : ∀ k request, ∃ response, A k request response)
    (hrun : Run A (w.beginCall agents task prompts) trace v)
    (hacts : ∀ act ∈ trace.map Prod.fst, ¬ Disturbs w.nextCall act)
    (hlatency : ∀ place response seen request t,
      (.run (.invocation w.nextCall place) response, seen) ∈ trace →
      .sent w.nextCall request t ∈ seen → response.latency = latency place) :
    let p : Pace := ⟨⟨w.nextCall, agents, task, prompts⟩, x.batches agents, w.now, delay, limit, latency⟩
    (∃ rest, p.CallLog (trace.seen ++ rest)) ∧
    (∀ results time, .returned w.nextCall results time ∈ trace.seen → p.CallLog trace.seen) ∧
    ((∃ results time, .returned w.nextCall results time ∈ trace.seen) ∨
      Inevitable A w.nextCall v) ∧
    p.overAt p.batches.length =
      w.now + (p.batches.map p.span).sum + (p.batches.length - 1) * delay := by
  intro p
  obtain rfl := hw.executor_eq
  obtain ⟨hvalid, _, hmade⟩ := Executor.create_eq_ok_iff.1 hx
  have hpool := Executor.poolSize_pos hx
  have hsuits : p.Suits w.executor := by
    refine ⟨rfl, by rw [hmade]; exact hquotas, by rw [hmade]; exact hdelay,
      by rw [hmade]; exact hlimit, ?_, by rw [hmade]; exact hmost⟩
    intro hzero
    simp [Executor.poolSize, hzero] at hpool
  have hs := hw.sound.beginCall agents task prompts
  have hself := hw.sound.listed.call?_beginCall_self agents task prompts
  have hkeeps := hrun.keeps hs (hw.begin agents task prompts).awake
    (.inl ⟨_, onTime_beginCall hw.sound hnone hsuits rfl rfl⟩) hacts
    fun a r seen hmem place q t ha hq => hlatency place r seen q t (ha ▸ hmem) hq
  refine ⟨?_, fun results time hret => ?_, ?_, ?_⟩
  · rcases hkeeps with ⟨c, hc⟩ | ⟨_, hlog⟩
    · exact hc.onPace.begins
    · exact ⟨[], by rwa [List.append_nil]⟩
  · rcases hkeeps with ⟨c, hc⟩ | ⟨_, hlog⟩
    · exact absurd hret (hrun.not_returned hs hself hc.call results time)
    · exact hlog
  · have habandon : .abandon w.nextCall ∉ trace.map Prod.fst := fun hmem => hacts _ hmem rfl
    refine (hrun.returned_or_on hs (by simp [hself]) habandon).imp_right fun hon => ?_
    exact ((hw.begin agents task prompts).run hrun).inevitable hpool hA hon
  · have hover := p.overAt_eq (n := p.batches.length) le_rfl
    rwa [List.take_length] at hover

end World

/-! ### A call of two batches -/

namespace Sample

/-- A strategy that sends one request at a time, with pauses. -/
def unhurried : Strategy := ⟨"unhurried", 1, .ofMillis 50, false, "One request at a time"⟩

/-- Two agents that are active. -/
def couple : List Agent :=
  [.create "a" "analyst" default "p" defaultProfile 1, .create "b" "analyst" default "p" defaultProfile 1]

/-- A response after a while. -/
def slow : Response := ⟨5, default⟩

/-- Two batches with a pause between them. -/
def visits : List Action :=
  [.run (.caller 0) slow, .run (.invocation 0 0) slow, .pass 5, .run (.invocation 0 0) slow,
    .run (.caller 0) slow, .pass 55, .run (.caller 0) slow, .run (.invocation 0 1) slow, .pass 60,
    .run (.invocation 0 1) slow, .run (.caller 0) slow]

theorem slow_of_mem_visits {a : Actor} {response : Response} (h : .run a response ∈ visits) :
    response = slow := by
  simp only [visits, List.mem_cons, Action.run.injEq, List.not_mem_nil, reduceCtorEq, false_or,
    or_false] at h
  rcases h with h | h | h | h | h | h | h | h <;> exact h.2

theorem not_disturbs_of_mem_visits {act : Action} (h : act ∈ visits) :
    ¬ World.Disturbs 0 act := by
  simp only [visits, List.mem_cons, List.not_mem_nil, or_false] at h
  rcases h with rfl | rfl | rfl | rfl | rfl | rfl | rfl | rfl | rfl | rfl | rfl <;> exact id

end Sample

/-- Two batches of five milliseconds and a pause of fifty take sixty. -/
theorem World.Reachable.timetable_met : ∃ trace, ∃ p : Pace,
    p.CallLog trace ∧ p.batches.length = 2 ∧ p.overAt p.batches.length = 60 := by
  let begun := (World.idle ⟨Sample.unhurried, .standard⟩).beginCall Sample.couple Sample.task
    Sample.prompts
  have hreturns : (begun.play Sample.visits).any
      (fun e => e.1.seen.any (·.isReturn 0 fun _ => true)) = true := by decide +kernel
  cases hplay : begun.play Sample.visits with
  | none =>
      rw [hplay] at hreturns
      cases hreturns
  | some e =>
      rw [hplay] at hreturns
      obtain ⟨results, time, hret⟩ := exists_returned hreturns
      obtain ⟨hrun, hacts⟩ := World.run_play hplay
      have hx : Executor.create Sample.unhurried .standard = .ok ⟨Sample.unhurried, .standard⟩ :=
        Executor.create_eq_ok_iff.2 ⟨by rfl, by simp [ExecutorSettings.standard], rfl⟩
      have hdelay : Sample.unhurried.pause = .ofMillis 50 := rfl
      have hlimit : ExecutorSettings.standard.agentTimeout = .ofMillis 30000 := rfl
      have hlatency : ∀ place response seen request t,
          (.run (.invocation 0 place) response, seen) ∈ e.1 →
          .sent 0 request t ∈ seen → response.latency = (fun _ => 5 : Nat → Nat) place := by
        intro place response seen request t hmem _
        have hact : .run (.invocation 0 place) response ∈ Sample.visits :=
          hacts ▸ List.mem_map.2 ⟨_, hmem, rfl⟩
        rw [Sample.slow_of_mem_visits hact]
        rfl
      obtain ⟨_, hlog, _, hover⟩ := World.Reachable.timetable hx (by decide) rfl hdelay hlimit
        (Sample.reachable_idle _) rfl (fun _ _ => ⟨default, trivial⟩) hrun
        (fun act hmem => Sample.not_disturbs_of_mem_visits (hacts ▸ hmem)) hlatency
      refine ⟨e.1.seen, _, hlog results time hret, by decide +kernel, ?_⟩
      rw [hover]
      decide +kernel

end AgentSwarm
