/-
**The view from outside a partition.**

The quota of a partition lets its own invocations wait, and from outside it should not matter.  Two
worlds are *alike* outside a partition when they show the same callers with a batch to come, the same
invocations for agents of other partitions, and the same of all that these look at: the time, the
quotas and pools of the other partitions, and who is ready or waits for a time.  Callers with no batch
to come wait for the last invocations of their call, and these may be of any partition, so such a
caller is not shown.

Whoever is not shown changes nothing that is (an *unwinding*), and whoever is shown does the same in
worlds that are alike.  Both need that a permit does not go from the inside to the outside: the common
pool must not have anybody waiting.

Main definitions:

* `AgentSwarm.Executor.SameBut` — executors that differ in the quota of a partition at most;
* `AgentSwarm.Sight`, `AgentSwarm.World.sight` — what an actor shows;
* `AgentSwarm.World.Alike` — **two worlds show the same outside a partition**.

Main results:

* `AgentSwarm.World.Turn.alike` — whoever is not shown changes nothing that is;
* `AgentSwarm.World.Alike.runInvocation`, `AgentSwarm.World.Alike.runCaller` — **whoever is shown does
  the same** in worlds that are alike.
-/

import AgentSwarm.Proofs.Executor.Accounts
import AgentSwarm.Proofs.Executor.Cells

set_option relaxedAutoImplicit false
set_option autoImplicit false

namespace AgentSwarm

open World (collect)

/-! ### Executors -/

namespace Executor

/-- Two executors differ in the quota of a partition at most. -/
structure SameBut (p : String) (x y : Executor) : Prop where
  strategy : x.strategy = y.strategy
  agentTimeout : x.settings.agentTimeout = y.settings.agentTimeout
  quotaOf : ∀ q, q ≠ p → x.quotaOf q = y.quotaOf q

namespace SameBut

variable {p : String} {x y z : Executor}

theorem refl (p : String) (x : Executor) : SameBut p x x := ⟨rfl, rfl, fun _ _ => rfl⟩

theorem symm (h : SameBut p x y) : SameBut p y x :=
  ⟨h.strategy.symm, h.agentTimeout.symm, fun q hq => (h.quotaOf q hq).symm⟩

theorem trans (h : SameBut p x y) (h' : SameBut p y z) : SameBut p x z :=
  ⟨h.strategy.trans h'.strategy, h.agentTimeout.trans h'.agentTimeout,
    fun q hq => (h.quotaOf q hq).trans (h'.quotaOf q hq)⟩

theorem poolOf_eq (h : SameBut p x y) (q : String) : x.poolOf q = y.poolOf q := by
  simp only [poolOf, h.strategy]

theorem batches_eq (h : SameBut p x y) (agents : List Agent) : x.batches agents = y.batches agents := by
  simp only [batches, h.strategy]

theorem curtail_eq (h : SameBut p x y) (r : Response) : x.curtail r = y.curtail r := by
  simp only [curtail, h.agentTimeout]

end SameBut

/-- A pool of a partition is that of this partition only. -/
theorem eq_of_poolOf {x : Executor} {q q' : String} (h : x.poolOf q = some q') : q' = q := by
  simp only [poolOf] at h
  split at h
  · exact (Option.some.inj h).symm
  · cases h

/-- With routing the pool of a partition is its own, and without it there is one pool. -/
theorem poolOf_cases (x : Executor) :
    (x.strategy.routed = true ∧ ∀ q, x.poolOf q = some q) ∨
      x.strategy.routed = false ∧ ∀ q, x.poolOf q = none := by
  cases hr : x.strategy.routed with
  | true => exact .inl ⟨rfl, fun q => by simp [poolOf, hr]⟩
  | false => exact .inr ⟨rfl, fun q => by simp [poolOf, hr]⟩

end Executor

/-! ### Sights -/

/-- What an actor shows: a caller with a batch to come, or an invocation. -/
inductive Sight where
  | caller (brief : Brief) (remaining : List (List Nat)) (dispatched : Nat) (isPausing : Bool)
  | unit (brief : Brief) (i : Invocation)

/-- What an actor of a call shows outside a partition. -/
def TaskCall.sight (p : String) (c : TaskCall) : Actor → Option Sight
  | .caller _ =>
    if c.remaining = [] then none
    else some (.caller c.brief c.remaining c.dispatched c.isPausing)
  | .invocation _ place =>
    ((c.invocation? place).filter fun i => i.agent.partition != p).map (.unit c.brief)

namespace World

variable {p : String} {A : BackendLaw} {u v w w' : World} {a b : Actor} {c d : TaskCall}
  {i j : Invocation} {seen : List Occurrence} {response : Response}

/-- What an actor shows outside a partition. -/
def sight (p : String) (w : World) (a : Actor) : Option Sight := (w.call? a.call).bind (·.sight p a)

theorem sight_caller (hc : w.call? c.id = some c) : w.sight p (.caller c.id) =
    if c.remaining = [] then none
    else some (.caller c.brief c.remaining c.dispatched c.isPausing) := by
  simp [sight, Actor.call, hc, TaskCall.sight]

theorem Has.sight (hi : w.Has c i) : w.sight p (actorOf c i) =
    if i.agent.partition = p then none else some (.unit c.brief i) := by
  simp only [World.sight, actorOf, Actor.call, hi.call, Option.bind_some, TaskCall.sight, hi.unit,
    Option.filter_some, bne_iff_ne, ne_eq]
  split <;> simp_all

/-- An invocation that is not shown is for an agent of the partition. -/
theorem Has.inside (hi : w.Has c i) (h : w.sight p (actorOf c i) = none) : i.agent.partition = p := by
  rw [hi.sight] at h
  by_contra hne
  rw [if_neg hne] at h
  cases h

/-- What an actor shows after a call was written. -/
theorem sight_putCall (hc : w.call? d.id = some c) (a : Actor) : (w.putCall d).sight p a =
    if a.call = d.id then d.sight p a else w.sight p a := by
  simp only [sight, call?_putCall]
  split
  next ha =>
      rw [ha, hc]
      rfl
  next => rfl

/-- What an actor shows after an invocation was changed. -/
theorem Has.sight_adjust {f : Invocation → Invocation} (hf : ∀ j, (f j).place = j.place)
    (hi : w.Has c i) (a : Actor) : (w.putCall (c.adjust i.place f)).sight p a =
      if a = actorOf c i then
        if (f i).agent.partition = p then none else some (.unit c.brief (f i))
      else w.sight p a := by
  split
  next ha =>
      subst ha
      have hsight := (hi.adjust hf).sight (p := p)
      rw [actorOf, hf] at hsight
      exact hsight
  next ha =>
      rw [sight_putCall (d := c.adjust i.place f) hi.call]
      split
      next hid =>
          rw [TaskCall.id_adjust] at hid
          cases a with
          | caller k =>
              simp only [World.sight, hid, hi.call, Option.bind_some]
              rfl
          | invocation k place =>
              have hp : place ≠ i.place := by
                rintro rfl
                exact ha (by rw [actorOf, ← hid]; rfl)
              simp only [World.sight, hid, hi.call, Option.bind_some, TaskCall.sight,
                TaskCall.invocation?_adjust hf, if_neg hp]
              rfl
      next => rfl

/-- What an actor shows after an invocation was taken away. -/
theorem Has.sight_without (hi : w.Has c i) (a : Actor) :
    (w.putCall (c.without i.place)).sight p a = if a = actorOf c i then none else w.sight p a := by
  rw [sight_putCall (d := c.without i.place) hi.call, TaskCall.id_without]
  by_cases hid : a.call = c.id
  · rw [if_pos hid]
    cases a with
    | caller k =>
        simp only [World.sight, hid, hi.call, Option.bind_some, actorOf, reduceCtorEq, if_false]
        rfl
    | invocation k place =>
        obtain rfl : k = c.id := hid
        by_cases hp : place = i.place
        · simp [actorOf, hp, TaskCall.sight, TaskCall.invocation?_without]
        · simp only [actorOf, Actor.invocation.injEq, hp, and_false, if_false, World.sight,
            Actor.call, hi.call, Option.bind_some, TaskCall.sight, TaskCall.invocation?_without]
          rfl
  · rw [if_neg hid, if_neg]
    rintro rfl
    exact hid rfl

/-! ### Worlds that are alike -/

/-- **Two worlds show the same outside a partition.** -/
structure Alike (p : String) (w v : World) : Prop where
  executor : w.executor.SameBut p v.executor
  now : w.now = v.now
  nextCall : w.nextCall = v.nextCall
  nextSerial : w.nextSerial = v.nextSerial
  sight : ∀ a, w.sight p a = v.sight p a
  ready : ∀ a, w.sight p a ≠ none → (a ∈ w.ready ↔ a ∈ v.ready)
  alarms : ∀ t a, w.sight p a ≠ none → ((t, a) ∈ w.alarms ↔ (t, a) ∈ v.alarms)
  dues : ∀ q, q ≠ p → w.dues.lookup q = v.dues.lookup q
  pool : ∀ q, q ≠ p → w.pool (some q) = v.pool (some q)

namespace Alike

theorem refl (p : String) (w : World) : Alike p w w where
  executor := .refl p w.executor
  now := rfl
  nextCall := rfl
  nextSerial := rfl
  sight _ := rfl
  ready _ _ := Iff.rfl
  alarms _ _ _ := Iff.rfl
  dues _ _ := rfl
  pool _ _ := rfl

theorem symm (h : Alike p w v) : Alike p v w where
  executor := h.executor.symm
  now := h.now.symm
  nextCall := h.nextCall.symm
  nextSerial := h.nextSerial.symm
  sight a := (h.sight a).symm
  ready a ha := (h.ready a (h.sight a ▸ ha)).symm
  alarms t a ha := (h.alarms t a (h.sight a ▸ ha)).symm
  dues q hq := (h.dues q hq).symm
  pool q hq := (h.pool q hq).symm

theorem trans (h : Alike p u v) (h' : Alike p v w) : Alike p u w where
  executor := h.executor.trans h'.executor
  now := h.now.trans h'.now
  nextCall := h.nextCall.trans h'.nextCall
  nextSerial := h.nextSerial.trans h'.nextSerial
  sight a := (h.sight a).trans (h'.sight a)
  ready a ha := (h.ready a ha).trans (h'.ready a (h.sight a ▸ ha))
  alarms t a ha := (h.alarms t a ha).trans (h'.alarms t a (h.sight a ▸ ha))
  dues q hq := (h.dues q hq).trans (h'.dues q hq)
  pool q hq := (h.pool q hq).trans (h'.pool q hq)

/-- An invocation that is shown is there in both worlds. -/
theorem has (h : Alike p w v) (hi : w.Has c i) (hout : i.agent.partition ≠ p) :
    ∃ d, v.Has d i ∧ d.brief = c.brief := by
  have hsight := h.sight (actorOf c i)
  rw [hi.sight, if_neg hout] at hsight
  obtain ⟨d, hd, hshown⟩ := Option.bind_eq_some_iff.1 hsight.symm
  obtain ⟨j, hj, he⟩ := Option.map_eq_some_iff.1 hshown
  obtain ⟨hj, _⟩ := Option.filter_eq_some_iff.1 hj
  obtain ⟨hbrief, rfl⟩ := Sight.unit.inj he
  have hid : d.id = c.id := id_of_call? hd
  exact ⟨d, ⟨hid ▸ hd, hj⟩, hbrief⟩

/-- Both worlds show the same invocation of an actor. -/
theorem unit_eq (h : Alike p w v) (hi : w.Has c i) (hj : v.Has d j) (he : actorOf c i = actorOf d j)
    (hout : i.agent.partition ≠ p) : d.brief = c.brief ∧ j = i := by
  obtain ⟨e, hi', hbrief⟩ := h.has hi hout
  have hid : e.id = c.id := congrArg Brief.id hbrief
  obtain ⟨rfl, rfl⟩ := hj.eq_of_actorOf hi' (by rw [← he, actorOf, actorOf, hid])
  exact ⟨hbrief, rfl⟩

/-- A caller that is shown is there in both worlds, with the same batches to come. -/
theorem caller (h : Alike p w v) (hc : w.call? c.id = some c) (hrem : c.remaining ≠ []) :
    ∃ d, v.call? c.id = some d ∧ d.brief = c.brief ∧ d.remaining = c.remaining ∧
      d.dispatched = c.dispatched ∧ d.isPausing = c.isPausing := by
  have hsight := h.sight (.caller c.id)
  rw [sight_caller hc, if_neg hrem] at hsight
  obtain ⟨d, hd, hshown⟩ := Option.bind_eq_some_iff.1 hsight.symm
  obtain ⟨_, he⟩ := Option.ite_none_left_eq_some.1 hshown
  obtain ⟨hbrief, hremaining, hdispatched, hpausing⟩ := Sight.caller.inj (Option.some.inj he)
  exact ⟨d, hd, hbrief, hremaining, hdispatched, hpausing⟩

/-- Two versions of one call have the same batches to come. -/
theorem remaining_eq (h : Alike p w v) (hc : w.call? c.id = some c) (hd : v.call? d.id = some d)
    (hid : d.id = c.id) : d.remaining = c.remaining := by
  by_cases hrem : c.remaining = []
  · by_contra hne
    rw [hrem] at hne
    obtain ⟨e, he, _, hremaining, _⟩ := h.symm.caller hd hne
    rw [hid, hc] at he
    obtain rfl := Option.some.inj he
    exact hne (hremaining.symm.trans hrem)
  · obtain ⟨e, he, _, hremaining, _⟩ := h.caller hc hrem
    rw [← hid, hd] at he
    obtain rfl := Option.some.inj he
    exact hremaining

/-- When all live invocations of a call are shown, it has some in both worlds or in none. -/
theorem live_eq_nil (h : Alike p w v) (hc : w.call? c.id = some c) (hd : v.call? d.id = some d)
    (hid : d.id = c.id) (hshown : ∀ i ∈ d.live, i.agent.partition ≠ p) (hlive : c.live = []) :
    d.live = [] := by
  refine List.eq_nil_iff_forall_not_mem.2 fun j hj => ?_
  obtain ⟨i, hi⟩ : ∃ i, d.invocation? j.place = some i := by
    rw [← Option.isSome_iff_exists, TaskCall.invocation?, List.find?_isSome]
    exact ⟨j, hj, beq_self_eq_true _⟩
  have hplace := TaskCall.place_of_invocation? hi
  have hhas : v.Has d i := ⟨hd, by rw [hplace]; exact hi⟩
  obtain ⟨e, he, hbrief⟩ := h.symm.has hhas (hshown i hhas.mem_live)
  have hec : e.id = c.id := (congrArg Brief.id hbrief).trans hid
  have hcall := he.call
  rw [hec, hc] at hcall
  obtain rfl := Option.some.inj hcall
  have hmem := he.mem_live
  rw [hlive] at hmem
  cases hmem

end Alike

/-! ### Changes in both worlds -/

namespace Alike

/-- The same pool is written, unless it is one that is not shown. -/
theorem putPool (h : Alike p w v) (key : Option String) {P Q : Pool}
    (hPQ : ∀ q, q ≠ p → key = some q → P = Q) : Alike p (w.putPool key P) (v.putPool key Q) :=
  { h with
    pool := by
      intro q hq
      rw [pool_putPool, pool_putPool]
      split
      next hkey => exact hPQ q hq hkey.symm
      next => exact h.pool q hq }

/-- The same time is written for a partition. -/
theorem putDue (h : Alike p w v) (partition : String) (due : Option Nat) :
    Alike p (w.putDue partition due) (v.putDue partition due) := by
  cases due with
  | none => exact h
  | some due =>
      refine { h with dues := fun q hq => ?_ }
      simp only [World.putDue, List.lookup_cons, lookup_filter_ne]
      cases q == partition with
      | true => rfl
      | false => exact h.dues q hq

/-- The same actor begins to wait for a time. -/
theorem sleepUntil (h : Alike p w v) (t : Nat) (a : Actor) :
    Alike p (w.sleepUntil t a) (v.sleepUntil t a) :=
  { h with
    alarms := by
      intro t' b hb
      simp only [World.sleepUntil, List.mem_append]
      exact or_congr_left (h.alarms t' b hb) }

/-- The same actor is woken. -/
theorem wake (h : Alike p w v) (a : Actor) : Alike p (w.wake a) (v.wake a) :=
  { h with
    ready := by
      intro b hb
      rw [mem_ready_wake, mem_ready_wake]
      exact or_congr_left (h.ready b hb) }

/-- The same actor is forgotten. -/
theorem forget (h : Alike p w v) (a : Actor) : Alike p (w.forget a) (v.forget a) :=
  { h with
    ready := by
      intro b hb
      simp only [World.forget, List.mem_filter]
      exact and_congr_left fun _ => h.ready b hb
    alarms := by
      intro t b hb
      simp only [World.forget, List.mem_filter]
      exact and_congr_left fun _ => h.alarms t b hb }

/-- The same actor goes on. -/
theorem rise (h : Alike p w v) (hw : w.ready.Nodup) (hv : v.ready.Nodup) (a : Actor) :
    Alike p (w.rise a) (v.rise a) :=
  { h with
    ready := by
      intro b hb
      simp only [World.rise, hw.mem_erase_iff, hv.mem_erase_iff]
      exact and_congr_right fun _ => h.ready b hb }

/-- Time passes. -/
theorem passTo (h : Alike p w v) (t : Nat) : Alike p (w.passTo t) (v.passTo t) where
  executor := h.executor
  now := rfl
  nextCall := h.nextCall
  nextSerial := h.nextSerial
  sight := h.sight
  ready a ha := by
    have halarms := fun t => h.alarms t a ha
    simp only [World.passTo, List.mem_append, List.mem_map, List.mem_filter, Prod.exists,
      exists_eq_right, h.ready a ha, halarms]
  alarms t' a ha := by
    have halarms := h.alarms t' a ha
    simp only [World.passTo, List.mem_filter, halarms]
  dues := h.dues
  pool := h.pool

/-- Whoever is shown, or is in no list, is in the same lists. -/
theorem lists (h : Alike p w v) (ha : w.sight p a ≠ none ∨ w.Away a ∧ v.Away a) :
    (a ∈ w.ready ↔ a ∈ v.ready) ∧ ∀ t, (t, a) ∈ w.alarms ↔ (t, a) ∈ v.alarms := by
  rcases ha with hshown | ⟨hw, hv⟩
  · exact ⟨h.ready a hshown, fun t => h.alarms t a hshown⟩
  · exact ⟨iff_of_false hw.ready hv.ready, fun t => iff_of_false (hw.alarms t) (hv.alarms t)⟩

/-- The same invocation is changed. -/
theorem adjust {f : Invocation → Invocation} (hf : ∀ j, (f j).place = j.place)
    (h : Alike p w v) (hi : w.Has c i) (hj : v.Has d i) (hbrief : d.brief = c.brief)
    (hout : i.agent.partition ≠ p) :
    Alike p (w.putCall (c.adjust i.place f)) (v.putCall (d.adjust i.place f)) := by
  have hactor : actorOf d i = actorOf c i := by
    rw [actorOf, actorOf, show d.id = c.id from congrArg Brief.id hbrief]
  have hold : ∀ a, (w.putCall (c.adjust i.place f)).sight p a ≠ none → w.sight p a ≠ none := by
    intro a ha
    rw [hi.sight_adjust hf] at ha
    split at ha
    next he =>
        rw [he, hi.sight, if_neg hout]
        exact Option.some_ne_none _
    next => exact ha
  refine { h with sight := ?_, ready := fun a ha => h.ready a (hold a ha)
                  alarms := fun t a ha => h.alarms t a (hold a ha) }
  intro a
  rw [hi.sight_adjust hf, hj.sight_adjust hf, hactor, hbrief]
  split
  · rfl
  · exact h.sight a

/-- The same invocation comes to a stage. -/
theorem setStage (h : Alike p w v) (hi : w.Has c i) (hj : v.Has d i) (hbrief : d.brief = c.brief)
    (hout : i.agent.partition ≠ p) (stage : Stage) :
    Alike p (w.putCall (c.setStage i.place stage)) (v.putCall (d.setStage i.place stage)) :=
  h.adjust (f := fun i => { i with stage }) (fun _ => rfl) hi hj hbrief hout

/-- The same invocation is taken away. -/
theorem without (h : Alike p w v) (hi : w.Has c i) (hj : v.Has d i) (hbrief : d.brief = c.brief) :
    Alike p (w.putCall (c.without i.place)) (v.putCall (d.without i.place)) := by
  have hactor : actorOf d i = actorOf c i := by
    rw [actorOf, actorOf, show d.id = c.id from congrArg Brief.id hbrief]
  have hold : ∀ a, (w.putCall (c.without i.place)).sight p a ≠ none → w.sight p a ≠ none := by
    intro a ha
    rw [hi.sight_without] at ha
    split at ha
    · exact absurd rfl ha
    · exact ha
  refine { h with sight := ?_, ready := fun a ha => h.ready a (hold a ha)
                  alarms := fun t a ha => h.alarms t a (hold a ha) }
  intro a
  rw [hi.sight_without, hj.sight_without, hactor]
  split
  · rfl
  · exact h.sight a

end Alike

/-! ### Changes that are not shown -/

/-- A pool that is not shown is written. -/
theorem alike_putPool (w : World) {key : Option String} (hkey : ∀ q, key = some q → q = p)
    (P : Pool) : Alike p w (w.putPool key P) :=
  { Alike.refl p w with
    pool := by
      intro q hq
      rw [pool_putPool, if_neg fun he => hq (hkey q he.symm)] }

/-- The quota of the partition is used. -/
theorem alike_putDue (w : World) {q : String} (hq : q = p) (due : Option Nat) :
    Alike p w (w.putDue q due) := by
  cases due with
  | none => exact .refl p w
  | some due =>
      refine { Alike.refl p w with dues := fun q' hq' => ?_ }
      rw [lookup_putDue, if_neg fun he => hq' (he.trans hq)]

/-- Someone who is not shown begins to wait for a time. -/
theorem alike_sleepUntil (t : Nat) (ha : w.sight p a = none) : Alike p w (w.sleepUntil t a) :=
  { Alike.refl p w with
    alarms := by
      intro t' b hb
      have hne : b ≠ a := fun he => hb (he ▸ ha)
      simp [World.sleepUntil, hne] }

/-- Someone who is not shown is woken. -/
theorem alike_wake (ha : w.sight p a = none) : Alike p w (w.wake a) :=
  { Alike.refl p w with
    ready := by
      intro b hb
      have hne : b ≠ a := fun he => hb (he ▸ ha)
      simp [mem_ready_wake, hne] }

/-- Someone who is not shown is forgotten. -/
theorem alike_forget (ha : w.sight p a = none) : Alike p w (w.forget a) :=
  { Alike.refl p w with
    ready := by
      intro b hb
      have hne : b ≠ a := fun he => hb (he ▸ ha)
      simp [World.forget, hne]
    alarms := by
      intro t b hb
      have hne : b ≠ a := fun he => hb (he ▸ ha)
      simp [World.forget, hne] }

/-- Someone who is not shown goes on. -/
theorem alike_rise (ha : w.sight p a = none) : Alike p w (w.rise a) :=
  { Alike.refl p w with
    ready := by
      intro b hb
      have hne : b ≠ a := fun he => hb (he ▸ ha)
      exact (List.mem_erase_of_ne hne).symm }

/-- A call is written or dropped that shows what it showed. -/
theorem alike_calls (hx : v.executor = w.executor) (hn : v.now = w.now)
    (hk : v.nextCall = w.nextCall) (hserial : v.nextSerial = w.nextSerial)
    (hready : v.ready = w.ready) (halarms : v.alarms = w.alarms) (hdues : v.dues = w.dues)
    (hpools : v.pools = w.pools) (hs : ∀ a, v.sight p a = w.sight p a) : Alike p w v where
  executor := hx ▸ .refl p w.executor
  now := hn.symm
  nextCall := hk.symm
  nextSerial := hserial.symm
  sight a := (hs a).symm
  ready a _ := by rw [hready]
  alarms t a _ := by rw [halarms]
  dues q _ := by rw [hdues]
  pool q _ := by simp only [World.pool, hx, hpools]

/-- A call is written that shows what it showed. -/
theorem alike_putCall (hc : w.call? d.id = some c) (hs : ∀ a, d.sight p a = c.sight p a) :
    Alike p w (w.putCall d) := by
  refine alike_calls rfl rfl rfl rfl rfl rfl rfl rfl fun a => ?_
  rw [sight_putCall hc]
  split
  next ha => rw [World.sight, ha, hc, Option.bind_some, hs]
  next => rfl

/-- An invocation for an agent of the partition is changed. -/
theorem Has.alike_adjust {f : Invocation → Invocation} (hf : ∀ j, (f j).place = j.place)
    (hi : w.Has c i) (hagent : (f i).agent = i.agent) (hin : i.agent.partition = p) :
    Alike p w (w.putCall (c.adjust i.place f)) := by
  refine alike_calls rfl rfl rfl rfl rfl rfl rfl rfl fun a => ?_
  rw [hi.sight_adjust hf]
  split
  next ha => rw [ha, hi.sight, hagent, if_pos hin, if_pos hin]
  next => rfl

/-- An invocation for an agent of the partition is taken away. -/
theorem Has.alike_without (hi : w.Has c i) (hin : i.agent.partition = p) :
    Alike p w (w.putCall (c.without i.place)) := by
  refine alike_calls rfl rfl rfl rfl rfl rfl rfl rfl fun a => ?_
  rw [hi.sight_without]
  split
  next ha => rw [ha, hi.sight, if_pos hin]
  next => rfl

/-! ### Worlds in which nothing passes between partitions -/

/-- A permit changes neither the batches to come nor the agents that are asked. -/
theorem Granted.remaining_eq (h : Granted c d) : d.remaining = c.remaining := by cases h <;> rfl

theorem Granted.map_agent (h : Granted c d) : d.live.map (·.agent) = c.live.map (·.agent) := by
  cases h with
  | same => rfl
  | given _ _ => exact TaskCall.map_live_adjust fun _ => rfl

/-- While batches are to come, all live invocations of a call are shown. -/
def ShownBeforeLast (p : String) (c : TaskCall) : Prop :=
  c.remaining ≠ [] → ∀ i ∈ c.live, i.agent.partition ≠ p

theorem ShownBeforeLast.of_subset (h : ShownBeforeLast p c) (hrem : d.remaining = c.remaining)
    (hsub : ∀ i ∈ d.live, i.agent ∈ c.live.map (·.agent)) : ShownBeforeLast p d := by
  intro hne i hi
  obtain ⟨j, hj, he⟩ := List.mem_map.1 (hsub i hi)
  rw [← he]
  exact h (hrem ▸ hne) j hj

theorem ShownBeforeLast.adjust {place : Nat} {f : Invocation → Invocation}
    (hagent : ∀ j, (f j).agent = j.agent) (h : ShownBeforeLast p c) :
    ShownBeforeLast p (c.adjust place f) := by
  refine h.of_subset rfl fun j hj => ?_
  have hmap : (c.adjust place f).live.map (·.agent) = c.live.map (·.agent) :=
    TaskCall.map_live_adjust hagent
  rw [← hmap]
  exact List.mem_map_of_mem hj

/-- **Nothing passes from the partition to the others**: nobody waits in the common pool, so that no
permit goes from one partition to another, and no batch waits for an invocation that is not shown. -/
structure Clear (p : String) (w : World) : Prop where
  sound : w.Sound
  uncrowded : w.executor.strategy.routed = false → (w.pool none).waiting = []
  shown : ∀ c ∈ w.calls, ShownBeforeLast p c

namespace Clear

theorem congr (h : Clear p w) (hx : v.executor = w.executor) (hc : v.calls = w.calls)
    (hp : v.pools = w.pools) (hn : v.nextCall = w.nextCall) : Clear p v where
  sound := h.sound.congr hx hc hp hn
  uncrowded := by
    intro hr
    rw [World.pool, hp, hx]
    exact h.uncrowded (hx ▸ hr)
  shown := by
    rw [hc]
    exact h.shown

theorem has (h : Clear p w) (hi : w.Has c i) : ShownBeforeLast p c := h.shown c hi.mem_calls

/-- A call may be written that is shown like the others. -/
theorem shown_putCall (h : Clear p w) (hd : ShownBeforeLast p d) :
    ∀ c ∈ (w.putCall d).calls, ShownBeforeLast p c := by
  intro c hc
  rcases mem_calls_putCall hc with rfl | hc
  · exact hd
  · exact h.shown c hc

/-- An invocation that keeps its permit may be changed. -/
theorem adjust {f : Invocation → Invocation} (hf : ∀ j, (f j).place = j.place)
    (hagent : ∀ j, (f j).agent = j.agent) (h : Clear p w) (hi : w.Has c i)
    (hpermit : (f i).stage.holdsPermit = i.stage.holdsPermit)
    (hqueued : (f i).stage = .queued ↔ i.stage = .queued) :
    Clear p (w.putCall (c.adjust i.place f)) where
  sound := h.sound.adjust hf hi (hagent i) hpermit hqueued
  uncrowded := h.uncrowded
  shown := h.shown_putCall ((h.has hi).adjust hagent)

/-- An invocation with a permit may send its request. -/
theorem send (h : Clear p w) (hi : w.Has c i) (hs : i.stage = .admitted ∨ i.stage = .throttled)
    (endsAt : Nat) (ending : Ending) :
    Clear p (w.putCall (c.setStage i.place (.calling endsAt ending))) :=
  h.adjust (f := fun j => { j with stage := .calling endsAt ending }) (fun _ => rfl) (fun _ => rfl) hi
    (by rcases hs with hs | hs <;> rw [hs] <;> rfl) (by rcases hs with hs | hs <;> simp [hs])

/-- A free permit may be taken. -/
theorem take (h : Clear p w) (hi : w.Has c i) (hs : i.stage = .fresh)
    (hfree : 0 < (w.pool (w.keyOf i)).free) :
    Clear p ((w.putPool (w.keyOf i) { w.pool (w.keyOf i) with
      free := (w.pool (w.keyOf i)).free - 1 }).putCall (c.setStage i.place .admitted)) where
  sound := h.sound.take hi hs hfree
  uncrowded := by
    intro hr
    have hwaiting := h.uncrowded hr
    rw [pool_putCall, pool_putPool]
    split
    next hkey =>
        rw [← hkey]
        exact hwaiting
    next => exact hwaiting
  shown := h.shown_putCall ((h.has hi).adjust (f := fun j => { j with stage := .admitted }) fun _ => rfl)

theorem putDue (h : Clear p w) (q : String) (due : Option Nat) : Clear p (w.putDue q due) := by
  cases due with
  | none => exact h
  | some due => exact h.congr rfl rfl rfl rfl

/-- The first who waits for a permit of a partition is of this partition. -/
theorem partition_eq (h : Clear p w) {q : String} {rest : List Actor}
    (hwaiting : (w.pool (w.executor.poolOf q)).waiting = a :: rest)
    (hkey : w.keyOf i = w.executor.poolOf q) : i.agent.partition = q := by
  rcases w.executor.poolOf_cases with ⟨_, hpool⟩ | ⟨hr, hpool⟩
  · rw [keyOf, hpool, hpool] at hkey
    exact Option.some.inj hkey
  · rw [hpool, h.uncrowded hr] at hwaiting
    cases hwaiting

end Clear

/-! ### Leaving a pool -/

/-- A permit that an invocation for an agent of the partition gives back is not shown. -/
theorem alike_leavePool (h : Clear p w) (k : Nat) (hin : i.agent.partition = p) :
    Alike p w (w.leavePool k i) := by
  have hkey : ∀ q, w.executor.poolOf i.agent.partition = some q → q = p :=
    fun q he => (Executor.eq_of_poolOf he).trans hin
  have hrelease : Alike p w (w.releasePermit (w.executor.poolOf i.agent.partition)) := by
    rcases releasePermit_cases h.sound.queued (w.executor.poolOf i.agent.partition) with
      ⟨_, he⟩ | ⟨d, j, rest, hwaiting, hj, _, hjkey, he⟩
    · rw [he]
      exact alike_putPool w hkey _
    · -- who gets the permit is not shown either
      have hjin := (h.partition_eq hwaiting hjkey).trans hin
      have hj' : (w.putPool (w.executor.poolOf i.agent.partition)
          { w.pool (w.executor.poolOf i.agent.partition) with waiting := rest }).Has d j :=
        ⟨hj.call, hj.unit⟩
      have hset := hj'.alike_adjust (f := fun i => { i with stage := .admitted }) (fun _ => rfl) rfl hjin
      rw [he]
      refine ((alike_putPool w hkey _).trans hset).trans (alike_wake ?_)
      have hsight := (hj'.setStage .admitted).sight (p := p)
      rwa [if_pos hjin] at hsight
  unfold leavePool
  split
  · exact .refl p w
  · exact alike_putPool w hkey _
  all_goals exact hrelease

/-- An invocation for an agent of the partition is given up. -/
theorem alike_detach (h : Clear p w) (hi : w.Has c i) (hin : i.agent.partition = p) :
    Alike p w (w.detach c.id i) := by
  obtain ⟨c₁, hgrant, h₁, he⟩ := detach_eq h.sound.queued hi
  rw [he]
  refine ((alike_leavePool h c.id hin).trans (h₁.alike_without hin)).trans (alike_forget ?_)
  rw [h₁.sight_without, actorOf, actorOf, hgrant.id_eq, if_pos rfl]

namespace Alike

/-- The pool of a partition that is shown is the same, unless it is the common one. -/
theorem pool_eq (h : Alike p w v) {q q' : String} (hq : q ≠ p)
    (he : w.executor.poolOf q = some q') :
    w.pool (w.executor.poolOf q) = v.pool (w.executor.poolOf q) := by
  rw [he, h.pool q' fun hp => hq ((Executor.eq_of_poolOf he).symm.trans hp)]

/-- The same permit is given back. -/
theorem releasePermit (h : Alike p w v) (hw : Clear p w) (hv : Clear p v) {q : String}
    (hq : q ≠ p) :
    Alike p (w.releasePermit (w.executor.poolOf q)) (v.releasePermit (v.executor.poolOf q)) := by
  rw [← h.executor.poolOf_eq]
  have hwaiting : (w.pool (w.executor.poolOf q)).waiting = (v.pool (w.executor.poolOf q)).waiting := by
    rcases w.executor.poolOf_cases with ⟨_, hpool⟩ | ⟨hr, hpool⟩
    · rw [h.pool_eq hq (hpool q)]
    · rw [hpool, hw.uncrowded hr, hv.uncrowded (h.executor.strategy ▸ hr)]
  rcases releasePermit_cases hw.sound.queued (w.executor.poolOf q) with
    ⟨hnil, he⟩ | ⟨c, i, rest, hcons, hi, _, hikey, he⟩
  · rcases releasePermit_cases hv.sound.queued (w.executor.poolOf q) with
      ⟨_, he'⟩ | ⟨d, j, rest', hcons', _⟩
    · rw [he, he']
      exact h.putPool _ fun q' _ hkey => by rw [h.pool_eq hq hkey]
    · rw [← hwaiting, hnil] at hcons'
      cases hcons'
  · rcases releasePermit_cases hv.sound.queued (w.executor.poolOf q) with
      ⟨hnil', _⟩ | ⟨d, j, rest', hcons', hj, _, _, he'⟩
    · rw [← hwaiting, hcons] at hnil'
      cases hnil'
    · -- the same invocation gets the permit, and it is shown
      rw [← hwaiting, hcons] at hcons'
      obtain ⟨hactor, rfl⟩ := List.cons.inj hcons'
      have hout : i.agent.partition ≠ p := by
        rw [hw.partition_eq hcons hikey]
        exact hq
      obtain ⟨hbrief, rfl⟩ := h.unit_eq hi hj hactor hout
      rw [he, he', ← hactor]
      refine (setStage (h.putPool _ fun q' _ hkey => by rw [h.pool_eq hq hkey]) ?_ ?_ hbrief hout
        .admitted).wake _
      · exact ⟨hi.call, hi.unit⟩
      · exact ⟨hj.call, hj.unit⟩

/-- The same invocation leaves its pool. -/
theorem leavePool (h : Alike p w v) (hw : Clear p w) (hv : Clear p v) (k : Nat)
    (hout : i.agent.partition ≠ p) : Alike p (w.leavePool k i) (v.leavePool k i) := by
  unfold World.leavePool
  split
  · exact h
  · simp only [← h.executor.poolOf_eq]
    exact h.putPool _ fun q _ hkey => by rw [h.pool_eq hout hkey]
  all_goals exact h.releasePermit hw hv hout

/-- The same invocation is given up. -/
theorem detach (h : Alike p w v) (hw : Clear p w) (hv : Clear p v) (hi : w.Has c i) (hj : v.Has d i)
    (hbrief : d.brief = c.brief) (hout : i.agent.partition ≠ p) :
    Alike p (w.detach c.id i) (v.detach d.id i) := by
  obtain ⟨c₁, hgrant, hi₁, he⟩ := detach_eq hw.sound.queued hi
  obtain ⟨d₁, hgrant', hj₁, he'⟩ := detach_eq hv.sound.queued hj
  have hid : d.id = c.id := congrArg Brief.id hbrief
  have hleave := h.leavePool hw hv c.id hout
  rw [hid] at hj₁ he'
  have hactor : actorOf c₁ i = actorOf d₁ i := by
    rw [actorOf, actorOf, hgrant.id_eq, hgrant'.id_eq, hid]
  obtain ⟨hbrief₁, _⟩ := hleave.unit_eq hi₁ hj₁ hactor hout
  rw [hid, he, he', show actorOf d i = actorOf c i by rw [actorOf, actorOf, hid]]
  exact (hleave.without hi₁ hj₁ hbrief₁).forget _

end Alike

/-! ### Ending -/

/-- **What an invocation that ends leaves behind shows the same as if it were given up**, and then
the caller of its call is woken when no other is left. -/
theorem finish_cases (p : String) (hq : w.Queued none) (hi : w.Has c i) (ending : Ending) :
    ∃ u d, Alike p (w.detach c.id i) u ∧ u.call? c.id = some d ∧ d.remaining = c.remaining ∧
      (∀ j ∈ d.live, j.agent ∈ c.live.map (·.agent)) ∧
      w.finish c.id i ending = if d.live.isEmpty then u.wake (.caller c.id) else u := by
  obtain ⟨c₁, hgrant, _, hcall, he⟩ := finish_eq hq hi ending
  let d := c₁.settle i (w.executor.resultOf i.agent i.serial i.startedAt w.now ending)
  have hid : d.id = c.id := hgrant.id_eq
  have hcall' : (w.detach c.id i).call? d.id = some (c₁.without i.place) := by rw [hid, hcall]
  refine ⟨(w.detach c.id i).putCall d, d, alike_putCall hcall' ?_, ?_, hgrant.remaining_eq, ?_, he⟩
  · intro a
    cases a <;> rfl
  · have hput := call?_putCall_self (c := d) hcall'
    rwa [hid] at hput
  · intro j hj
    rw [← hgrant.map_agent]
    exact List.mem_map.2 ⟨j, (TaskCall.mem_live_without.1 hj).1, rfl⟩

/-- An invocation for an agent of the partition ends: a caller without a batch to come is not
shown. -/
theorem alike_finish (h : Clear p w) (hi : w.Has c i) (hin : i.agent.partition = p)
    (ending : Ending) : Alike p w (w.finish c.id i ending) := by
  obtain ⟨u, d, hsame, hcall, hremaining, _, he⟩ := finish_cases p h.sound.queued hi ending
  have hrem : d.remaining = [] := by
    rw [hremaining]
    by_contra hne
    exact h.has hi hne i hi.mem_live hin
  have hu := (alike_detach h hi hin).trans hsame
  rw [he]
  split
  · refine hu.trans (alike_wake ?_)
    rw [← id_of_call? hcall, sight_caller (id_of_call? hcall ▸ hcall), if_pos hrem]
  · exact hu

/-- The same invocation ends. -/
theorem Alike.finish (h : Alike p w v) (hw : Clear p w) (hv : Clear p v) (hi : w.Has c i)
    (hj : v.Has d i) (hbrief : d.brief = c.brief) (hout : i.agent.partition ≠ p) (ending : Ending) :
    Alike p (w.finish c.id i ending) (v.finish d.id i ending) := by
  have hid : d.id = c.id := congrArg Brief.id hbrief
  have hdetach := h.detach hw hv hi hj hbrief hout
  obtain ⟨w₁, c₁, hsame, hcall, hremaining, hlive, he⟩ := finish_cases p hw.sound.queued hi ending
  obtain ⟨v₁, d₁, hsame', hcall', hremaining', hlive', he'⟩ := finish_cases p hv.sound.queued hj ending
  have hboth : Alike p w₁ v₁ := hsame.symm.trans (hdetach.trans hsame')
  rw [hid] at hcall' he'
  rw [hid, he, he']
  have hcid := id_of_call? hcall
  have hdid := id_of_call? hcall'
  rw [← hcid] at hcall
  rw [← hdid] at hcall'
  by_cases hrem : c₁.remaining = []
  · -- the caller is not shown, whether it is woken or not
    have hrem' : d₁.remaining = [] := by
      rw [hboth.remaining_eq hcall hcall' (hdid.trans hcid.symm), hrem]
    have hwake : Alike p w₁ (w₁.wake (.caller c.id)) :=
      alike_wake (by rw [← hcid, sight_caller hcall, if_pos hrem])
    have hwake' : Alike p v₁ (v₁.wake (.caller c.id)) :=
      alike_wake (by rw [← hdid, sight_caller hcall', if_pos hrem'])
    split <;> split
    · exact hboth.wake _
    · exact hwake.symm.trans hboth
    · exact hboth.trans hwake'
    · exact hboth
  · -- all invocations that are left are shown
    have hrem' : d₁.remaining ≠ [] := by
      rwa [hboth.remaining_eq hcall hcall' (hdid.trans hcid.symm)]
    have hnil := hboth.live_eq_nil hcall hcall' (hdid.trans hcid.symm)
      ((hv.has hj).of_subset hremaining' hlive' hrem')
    have hnil' := hboth.symm.live_eq_nil hcall' hcall (hcid.trans hdid.symm)
      ((hw.has hi).of_subset hremaining hlive hrem)
    simp only [List.isEmpty_iff]
    split
    next hl =>
        rw [if_pos (hnil hl)]
        exact hboth.wake _
    next hl =>
        rw [if_neg fun hl' => hl (hnil' hl')]
        exact hboth

/-! ### Turns of invocations -/

namespace Alike

theorem requestOf_eq (hbrief : d.brief = c.brief) (i : Invocation) :
    requestOf d i = requestOf c i := by
  have htask : d.task = c.task := congrArg Brief.task hbrief
  rw [requestOf, requestOf, htask]

/-- The same request is sent. -/
theorem send (h : Alike p w v) (hw : Clear p w) (hv : Clear p v) (hi : w.Has c i) (hj : v.Has d i)
    (hbrief : d.brief = c.brief) (hout : i.agent.partition ≠ p)
    (hs : i.stage = .admitted ∨ i.stage = .throttled) (response : Response) :
    Alike p (w.send c i response).1 (v.send d i response).1 ∧
      (w.send c i response).2 = (v.send d i response).2 := by
  have hid : d.id = c.id := congrArg Brief.id hbrief
  generalize hstage : Stage.calling (w.now + (w.executor.curtail response).1)
    (w.executor.curtail response).2 = stage
  have hset := h.setStage hi hj hbrief hout stage
  simp only [World.send, now_putCall, ← h.executor.curtail_eq, ← h.now, requestOf_eq hbrief, hid,
    hstage]
  split
  · refine ⟨?_, rfl⟩
    have hfinish := hset.finish (hstage ▸ hw.send hi hs _ _) (hstage ▸ hv.send hj hs _ _)
      (hi.setStage stage) (hj.setStage stage) hbrief hout (w.executor.curtail response).2
    rwa [TaskCall.id_setStage, TaskCall.id_setStage, hid] at hfinish
  · exact ⟨hset.sleepUntil _ _, rfl⟩

/-- The quota of another partition gives the same answer. -/
theorem checkQuota_eq (h : Alike p w v) {q : String} (hq : q ≠ p) :
    w.checkQuota q = v.checkQuota q := by
  simp only [checkQuota, h.executor.quotaOf q hq, h.dues q hq, h.now]

/-- The same invocation with a permit asks the backend or waits for its quota. -/
theorem proceed (h : Alike p w v) (hw : Clear p w) (hv : Clear p v) (hi : w.Has c i) (hj : v.Has d i)
    (hbrief : d.brief = c.brief) (hout : i.agent.partition ≠ p)
    (hs : i.stage = .admitted ∨ i.stage = .throttled) (response : Response) :
    Alike p (w.proceed c i response).1 (v.proceed d i response).1 ∧
      (w.proceed c i response).2 = (v.proceed d i response).2 := by
  have hid : d.id = c.id := congrArg Brief.id hbrief
  simp only [World.proceed, ← h.checkQuota_eq hout]
  cases w.checkQuota i.agent.partition with
  | ok due =>
      refine (h.putDue _ due).send (hw.putDue _ due) (hv.putDue _ due) ?_ ?_ hbrief hout hs response
      all_goals cases due
      · exact hi
      · exact ⟨hi.call, hi.unit⟩
      · exact hj
      · exact ⟨hj.call, hj.unit⟩
  | error time =>
      refine ⟨?_, rfl⟩
      simp only [hid]
      exact (h.setStage hi hj hbrief hout .throttled).sleepUntil _ _

/-- Without routing the common pool has a permit for those who have none. -/
def HasPermit (w : World) : Prop :=
  w.executor.strategy.routed = false → 0 < (w.pool none).free

/-- The pool of a partition that is shown has a permit in both worlds or in none. -/
theorem free_iff (h : Alike p w v) {q : String} (hq : q ≠ p) (hw : HasPermit w)
    (hv : HasPermit v) :
    0 < (w.pool (w.executor.poolOf q)).free ↔ 0 < (v.pool (v.executor.poolOf q)).free := by
  rw [← h.executor.poolOf_eq]
  rcases w.executor.poolOf_cases with ⟨_, hpool⟩ | ⟨hr, hpool⟩
  · rw [h.pool_eq hq (hpool q)]
  · rw [hpool]
    exact iff_of_true (hw hr) (hv (h.executor.strategy ▸ hr))

/-- The same invocation takes a permit or waits for one. -/
theorem enter (h : Alike p w v) (hw : Clear p w) (hv : Clear p v) (hi : w.Has c i) (hj : v.Has d i)
    (hbrief : d.brief = c.brief) (hout : i.agent.partition ≠ p) (hs : i.stage = .fresh)
    (hwfree : HasPermit w) (hvfree : HasPermit v) (response : Response) :
    Alike p (w.enter c i response).1 (v.enter d i response).1 ∧
      (w.enter c i response).2 = (v.enter d i response).2 := by
  have hid : d.id = c.id := congrArg Brief.id hbrief
  have hfree := h.free_iff hout hwfree hvfree
  have hkey : v.keyOf i = w.executor.poolOf i.agent.partition := by
    rw [keyOf, ← h.executor.poolOf_eq]
  rw [← h.executor.poolOf_eq] at hfree
  simp only [World.enter, ← h.executor.poolOf_eq]
  by_cases hw0 : 0 < (w.pool (w.executor.poolOf i.agent.partition)).free
  · have hv0 := hfree.1 hw0
    rw [if_pos hw0, if_pos hv0]
    have hpool := h.putPool (w.executor.poolOf i.agent.partition)
      (P := { w.pool (w.executor.poolOf i.agent.partition) with
        free := (w.pool (w.executor.poolOf i.agent.partition)).free - 1 })
      (Q := { v.pool (w.executor.poolOf i.agent.partition) with
        free := (v.pool (w.executor.poolOf i.agent.partition)).free - 1 })
      fun q _ hq => by rw [h.pool_eq hout hq]
    have hvtake := hv.take hj hs (by rw [hkey]; exact hv0)
    rw [hkey] at hvtake
    exact (hpool.setStage ⟨hi.call, hi.unit⟩ ⟨hj.call, hj.unit⟩ hbrief hout .admitted).proceed
      (hw.take hi hs hw0) hvtake
      (Has.setStage (w := w.putPool _ _) ⟨hi.call, hi.unit⟩ .admitted)
      (Has.setStage (w := v.putPool _ _) ⟨hj.call, hj.unit⟩ .admitted) hbrief hout (.inl rfl) response
  · rw [if_neg hw0, if_neg fun hv0 => hw0 (hfree.2 hv0)]
    refine ⟨?_, rfl⟩
    rw [hid]
    exact (h.putPool _ fun q _ hq => by rw [h.pool_eq hout hq]).setStage ⟨hi.call, hi.unit⟩
      ⟨hj.call, hj.unit⟩ hbrief hout .queued

/-- **The same invocation goes on**, and the same is seen of it. -/
theorem runInvocation (h : Alike p w v) (hw : Clear p w) (hv : Clear p v) (hi : w.Has c i)
    (hj : v.Has d i) (hbrief : d.brief = c.brief) (hout : i.agent.partition ≠ p)
    (hc : c.isCancelled = false) (hd : d.isCancelled = false)
    (hwfree : i.stage = .fresh → HasPermit w) (hvfree : i.stage = .fresh → HasPermit v)
    (response : Response) :
    Alike p (w.runInvocation c i response).1 (v.runInvocation d i response).1 ∧
      (w.runInvocation c i response).2 = (v.runInvocation d i response).2 := by
  have hid : d.id = c.id := congrArg Brief.id hbrief
  simp only [World.runInvocation, hc, hd, Bool.false_eq_true, if_false]
  cases hs : i.stage with
  | fresh =>
      simp only [← h.now]
      have hplace : ∀ j : Invocation, ({ j with startedAt := w.now } : Invocation).place = j.place :=
        fun _ => rfl
      have hstart := h.adjust hplace hi hj hbrief hout
      have henter := hstart.enter (hw.adjust hplace (fun _ => rfl) hi rfl Iff.rfl)
        (hv.adjust hplace (fun _ => rfl) hj rfl Iff.rfl) (hi.adjust hplace) (hj.adjust hplace) hbrief
        hout hs (hwfree hs) (hvfree hs) response
      rw [hs] at henter
      exact henter
  | queued => exact ⟨h, rfl⟩
  | admitted => exact h.proceed hw hv hi hj hbrief hout (.inl hs) response
  | throttled => exact h.proceed hw hv hi hj hbrief hout (.inr hs) response
  | calling endsAt ending =>
      simp only [← h.now]
      split
      · exact ⟨h.finish hw hv hi hj hbrief hout ending, by rw [hid]⟩
      · exact ⟨h, rfl⟩

/-- The same invocation would send the same request. -/
theorem request?_eq (h : Alike p w v) (hi : w.Has c i) (hj : v.Has d i) (hbrief : d.brief = c.brief)
    (hout : i.agent.partition ≠ p) (hc : c.isCancelled = false) (hd : d.isCancelled = false)
    (hwfree : i.stage = .fresh → HasPermit w) (hvfree : i.stage = .fresh → HasPermit v) :
    v.request? (actorOf d i) = w.request? (actorOf c i) := by
  simp only [request?, actorOf, Actor.call, hi.call, hi.unit, hj.call, hj.unit, hc, hd,
    ← h.checkQuota_eq hout, requestOf_eq hbrief]
  cases hs : i.stage with
  | fresh => simp only [h.free_iff hout (hwfree hs) (hvfree hs)]
  | queued | admitted | throttled | calling => rfl

end Alike

/-! ### Turns of callers -/

/-- A caller and live invocations are all that a call shows. -/
theorem sight_eq (p : String) (hbrief : d.brief = c.brief) (hrem : d.remaining = c.remaining)
    (hdispatched : d.dispatched = c.dispatched) (hpausing : d.isPausing = c.isPausing)
    (hlive : d.live = c.live) (a : Actor) : d.sight p a = c.sight p a := by
  cases a with
  | caller k => simp only [TaskCall.sight, hbrief, hrem, hdispatched, hpausing]
  | invocation k place => simp only [TaskCall.sight, TaskCall.invocation?, hbrief, hlive]

/-- What the agents of a batch get depends on the brief only. -/
theorem openBatch_congr (hbrief : d.brief = c.brief) (now serial : Nat)
    (members : List (Nat × Agent)) :
    openBatch d now serial members = openBatch c now serial members := by
  have htask : d.task = c.task := congrArg Brief.task hbrief
  have hprompts : d.prompts = c.prompts := congrArg Brief.prompts hbrief
  induction members generalizing serial with
  | nil => rfl
  | cons member rest ih => simp only [openBatch, prepare, htask, hprompts, ih]

/-- Of a call between two batches the caller is shown, and nobody else is in a list. -/
theorem shown_or_away (hc : w.call? c.id = some c) (hrem : c.remaining ≠ [])
    (hw : ∀ place, w.Away (.invocation c.id place)) (hv : ∀ place, v.Away (.invocation c.id place))
    (a : Actor) (ha : a.call = c.id) : w.sight p a ≠ none ∨ w.Away a ∧ v.Away a := by
  cases a with
  | caller k =>
      obtain rfl : k = c.id := ha
      rw [sight_caller hc, if_neg hrem]
      exact .inl (Option.some_ne_none _)
  | invocation k place =>
      obtain rfl : k = c.id := ha
      exact .inr ⟨hw place, hv place⟩

/-- A caller with a batch to come reports, and then pauses or dispatches it. -/
theorem runCaller_eq {batch : List Nat} {rest : List (List Nat)} (hlive : c.live = [])
    (hcons : c.remaining = batch :: rest) : (w.runCaller c).1 =
      if w.pauses (collect c) then
        (w.putCall { collect c with isPausing := true }).sleepUntil
          (w.now + w.executor.strategy.pause.ceilMillis) (.caller c.id)
      else (w.dispatch (collect c) batch rest).1 := by
  simp only [runCaller, hlive, List.isEmpty_nil, Bool.not_true, Bool.false_eq_true, if_false]
  split
  next heq =>
      rw [show (collect c).remaining = c.remaining from rfl, hcons] at heq
      cases heq
  next batch' rest' heq =>
      rw [show (collect c).remaining = c.remaining from rfl, hcons] at heq
      obtain ⟨rfl, rfl⟩ := List.cons.inj heq
      split <;> rfl

namespace Alike

/-- Both versions of a call are written, and they show the same.  Whoever was not shown before must be
in no list. -/
theorem putCall {e f : TaskCall} (h : Alike p w v) (hc : w.call? e.id = some c)
    (hd : v.call? f.id = some d) (hid : f.id = e.id) (hs : ∀ a, f.sight p a = e.sight p a)
    (hold : ∀ a, a.call = e.id → e.sight p a ≠ none →
      w.sight p a ≠ none ∨ w.Away a ∧ v.Away a) :
    Alike p (w.putCall e) (v.putCall f) := by
  have hold' : ∀ a, (w.putCall e).sight p a ≠ none →
      w.sight p a ≠ none ∨ w.Away a ∧ v.Away a := by
    intro a ha
    rw [sight_putCall hc] at ha
    split at ha
    next hcall => exact hold a hcall ha
    next => exact .inl ha
  refine { h with sight := ?_, ready := fun a ha => (h.lists (hold' a ha)).1
                  alarms := fun t a ha => (h.lists (hold' a ha)).2 t }
  intro a
  rw [sight_putCall hc, sight_putCall hd, hid, hs]
  split
  · rfl
  · exact h.sight a

/-- The same batch is dispatched. -/
theorem dispatch {batch : List Nat} {rest : List (List Nat)} (h : Alike p w v)
    (hc : w.call? c.id = some c) (hd : v.call? d.id = some d) (hbrief : d.brief = c.brief)
    (hrem : c.remaining ≠ []) (hdispatched : d.dispatched = c.dispatched)
    (hw : ∀ place, w.Away (.invocation c.id place)) (hv : ∀ place, v.Away (.invocation c.id place)) :
    Alike p (w.dispatch c batch rest).1 (v.dispatch d batch rest).1 := by
  have hid : d.id = c.id := congrArg Brief.id hbrief
  have hagents : d.agents = c.agents := congrArg Brief.agents hbrief
  have hbatch : openBatch d v.now v.nextSerial (batchAgents d batch) =
      openBatch c w.now w.nextSerial (batchAgents c batch) := by
    rw [openBatch_congr hbrief, h.now, h.nextSerial, batchAgents, batchAgents, hagents]
  have hput : Alike p (w.putCall (c.openNext w.now w.nextSerial batch rest))
      (v.putCall (d.openNext v.now v.nextSerial batch rest)) := by
    refine h.putCall (c := c) (d := d) hc hd hid ?_ ?_
    · refine sight_eq p hbrief rfl ?_ rfl ?_
      · simp only [TaskCall.openNext, hdispatched]
      · simp only [TaskCall.openNext, hbatch]
    · exact fun a ha _ => shown_or_away hc hrem hw hv a ha
  refine { hput with nextSerial := ?_, ready := ?_ }
  · simp only [World.dispatch, hbatch, h.nextSerial]
  · intro a ha
    have hready := hput.ready a ha
    simp only [World.dispatch, hbatch, hid]
    split
    · exact List.mem_cons.trans ((or_congr_right hready).trans List.mem_cons.symm)
    · exact List.mem_append.trans ((or_congr_left hready).trans List.mem_append.symm)

/-- **The same caller goes on**: it pauses or dispatches the same batch. -/
theorem runCaller (h : Alike p w v) (hc : w.call? c.id = some c) (hd : v.call? d.id = some d)
    (hbrief : d.brief = c.brief) (hrem : c.remaining ≠ []) (hremaining : d.remaining = c.remaining)
    (hdispatched : d.dispatched = c.dispatched) (hpausing : d.isPausing = c.isPausing)
    (hckept : c.isCancelled = false) (hdkept : d.isCancelled = false)
    (hlive : c.live = [] ↔ d.live = [])
    (hw : c.live = [] → ∀ place, w.Away (.invocation c.id place))
    (hv : c.live = [] → ∀ place, v.Away (.invocation c.id place)) :
    Alike p (w.runCaller c).1 (v.runCaller d).1 := by
  have hid : d.id = c.id := congrArg Brief.id hbrief
  obtain ⟨batch, rest, hcons⟩ := List.exists_cons_of_ne_nil hrem
  by_cases hnil : c.live = []
  · have hnil' := hlive.1 hnil
    have hpauses : v.pauses (collect d) = w.pauses (collect c) := by
      simp only [pauses, collect, hdispatched, hpausing, hckept, hdkept, h.executor.strategy]
    -- the results that are reported are not shown
    have hreport : ∀ {u : World} {e : TaskCall}, u.call? e.id = some e →
        Alike p u (u.putCall (collect e)) := fun he =>
      alike_putCall (d := collect _) he fun a => by cases a <;> rfl
    have hboth : Alike p (w.putCall (collect c)) (v.putCall (collect d)) :=
      (hreport hc).symm.trans (h.trans (hreport hd))
    have hc' : (w.putCall (collect c)).call? (collect c).id = some (collect c) :=
      call?_putCall_self hc
    have hd' : (v.putCall (collect d)).call? (collect d).id = some (collect d) :=
      call?_putCall_self hd
    rw [runCaller_eq hnil hcons, runCaller_eq hnil' (hremaining.trans hcons), hpauses]
    split
    · rw [hid, ← h.now, ← h.executor.strategy]
      refine sleepUntil (h.putCall (e := { collect c with isPausing := true })
        (f := { collect d with isPausing := true }) hc hd hid ?_ ?_) _ _
      · exact sight_eq p hbrief hremaining hdispatched rfl (hnil'.trans hnil.symm)
      · exact fun a ha _ => shown_or_away hc hrem (hw hnil) (hv hnil) a ha
    · rw [← dispatch_putCall w (c := collect c) rfl, ← dispatch_putCall v (c := collect d) rfl]
      exact hboth.dispatch hc' hd' hbrief hrem hdispatched
        (fun place => ⟨(hw hnil place).ready, (hw hnil place).alarms⟩)
        fun place => ⟨(hv hnil place).ready, (hv hnil place).alarms⟩
  · have hne' : ¬ d.live = [] := fun he => hnil (hlive.2 he)
    simpa [World.runCaller, hnil, hne'] using h

end Alike

/-! ### Turns that are not shown -/

/-- What someone who is not shown does on the way. -/
theorem Move.alike (hm : Move A a w seen w') (ha : w.sight p a = none) : Alike p w w' := by
  cases hm with
  | start hi _ _ => exact hi.alike_adjust (fun _ => rfl) rfl (hi.inside ha)
  | @take _ c i hi _ _ _ =>
      have hkey : ∀ q, w.keyOf i = some q → q = p :=
        fun q he => (Executor.eq_of_poolOf he).trans (hi.inside ha)
      exact (alike_putPool w hkey _).trans (Has.alike_adjust
        (f := fun i => { i with stage := .admitted }) (fun _ => rfl) ⟨hi.call, hi.unit⟩ rfl
        (hi.inside ha))
  | @send _ c i due response hi _ _ _ _ =>
      have hdue : (w.putDue i.agent.partition due).Has c i := by
        cases due <;> exact ⟨hi.call, hi.unit⟩
      exact (alike_putDue w (hi.inside ha) due).trans (hdue.alike_adjust
        (f := fun j => { j with stage := (.calling
          (w.now + (w.executor.curtail response).1) (w.executor.curtail response).2) })
        (fun _ => rfl) rfl (hi.inside ha))
  | @report _ c hc _ => exact alike_putCall (d := collect c) hc fun a => by cases a <;> rfl

/-- What an actor does on the way lets nothing pass. -/
theorem Move.clear (hm : Move A a w seen w') (h : Clear p w) : Clear p w' := by
  cases hm with
  | start hi _ _ => exact h.adjust (fun _ => rfl) (fun _ => rfl) hi rfl Iff.rfl
  | take hi _ hs hfree => exact h.take hi hs hfree
  | @send _ c i due response hi _ hs _ _ =>
      have hdue : (w.putDue i.agent.partition due).Has c i := by
        cases due <;> exact ⟨hi.call, hi.unit⟩
      exact (h.putDue _ due).send hdue hs _ _
  | @report _ c hc hlive =>
      refine ⟨Move.sound (A := A) (.report hc hlive) h.sound, h.uncrowded, h.shown_putCall ?_⟩
      exact h.shown c (mem_calls_of_call? hc)

/-- What someone who is not shown does at the end of its turn. -/
theorem LastMove.alike (hm : LastMove a w seen w') (h : Clear p w) (ha : w.sight p a = none) :
    Alike p w w' := by
  cases hm with
  | @enqueue _ c i hi _ _ _ =>
      have hkey : ∀ q, w.keyOf i = some q → q = p :=
        fun q he => (Executor.eq_of_poolOf he).trans (hi.inside ha)
      exact (alike_putPool w hkey _).trans (Has.alike_adjust
        (f := fun i => { i with stage := .queued }) (fun _ => rfl) ⟨hi.call, hi.unit⟩ rfl
        (hi.inside ha))
  | @throttle _ c i time hi _ _ _ =>
      have hset : Alike p w (w.putCall (c.setStage i.place .throttled)) := hi.alike_adjust
        (f := fun i => { i with stage := .throttled }) (fun _ => rfl) rfl (hi.inside ha)
      exact hset.trans (alike_sleepUntil time (hset.sight _ ▸ ha))
  | await hi _ _ _ => exact alike_sleepUntil _ ha
  | finish hi _ => exact alike_finish h hi (hi.inside ha) _
  | @pause _ c hc _ _ hrem _ =>
      rw [sight_caller hc, if_neg hrem] at ha
      cases ha
  | @dispatch _ c batch rest hc _ _ hrem _ =>
      rw [sight_caller hc, if_neg (by rw [hrem]; exact List.cons_ne_nil _ _)] at ha
      cases ha
  | @leave _ c hc hlive _ hrem =>
      refine alike_calls rfl rfl rfl rfl rfl rfl rfl rfl fun b => ?_
      simp only [World.sight, call?_dropCall]
      split
      next hb =>
          rw [hb, hc]
          cases b <;> simp [TaskCall.sight, hrem, TaskCall.invocation?, hlive]
      next => rfl

/-- **Whoever is not shown changes nothing that is.** -/
theorem Turn.alike (ht : Turn A a (w.rise a) seen w') (h : Clear p w) (ha : w.sight p a = none) :
    Alike p w w' := by
  have hacts : ∀ {u u' : World} {seen : List Occurrence}, Acts A a u seen u' → Clear p u →
      u.sight p a = none → Alike p u u' := by
    intro u u' seen hacts
    induction hacts with
    | last hm => exact hm.alike
    | move hm _ ih =>
        intro hu ha
        have hmove := hm.alike ha
        exact hmove.trans (ih (hm.clear hu) (hmove.sight a ▸ ha))
  have hrise := alike_rise ha
  cases ht with
  | idle _ => exact hrise
  | acts hturn => exact hrise.trans (hacts hturn (h.congr rfl rfl rfl rfl) ha)

end World

end AgentSwarm
