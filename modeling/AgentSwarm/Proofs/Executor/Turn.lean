/-
**What an actor does in its turn.**

A step in which an actor goes on is taken apart once and for all.  The actor makes some *moves* — it
takes a permit, sends its request, or reports the results of a batch — and then one *last move*,
after which it waits, has ended, or has nothing to do.  Every invariant of a world is proved for the
moves; what a whole step preserves then follows from `AgentSwarm.World.turn_of_step?`.

Main definitions:

* `AgentSwarm.BackendLaw` — what a backend may answer;
* `AgentSwarm.World.Move`, `AgentSwarm.World.LastMove` — what an actor does on its way, and at the
  end of its turn;
* `AgentSwarm.World.Acts`, `AgentSwarm.World.Turn` — moves up to the last one, or nothing to do;
* `AgentSwarm.World.Steady` — what no turn changes.

The backend enters through a law: in the turns under a law every request is given a response that it
allows.

Main results:

* `AgentSwarm.World.turn_of_step?` — **a step in which an actor goes on is a turn**.
-/

import AgentSwarm.Proofs.Executor.Lookup

set_option relaxedAutoImplicit false
set_option autoImplicit false

namespace AgentSwarm

/-- Which responses a backend may give to the requests of a call. -/
abbrev BackendLaw := Nat → Request → Response → Prop

namespace World

/-- An actor with nothing to do: whom it stands for is gone, or waits for something else. -/
structure Idle (w : World) (a : Actor) : Prop where
  caller : ∀ id c, a = .caller id → w.call? id = some c → c.live ≠ []
  unit : ∀ c i, w.Has c i → a = actorOf c i → c.isCancelled = false ∧
    (i.stage = .queued ∨ ∃ endsAt ending, i.stage = .calling endsAt ending ∧ w.now < endsAt)

/-! ### Moves -/

/-- What an actor does on the way. -/
inductive Move (A : BackendLaw) : Actor → World → List Occurrence → World → Prop
  /-- An invocation that has not run yet takes the time. -/
  | start {w : World} {c : TaskCall} {i : Invocation} : w.Has c i → c.isCancelled = false →
      i.stage = .fresh → Move A (actorOf c i) w []
        (w.putCall (c.adjust i.place fun j => { j with startedAt := w.now }))
  /-- An invocation takes a free permit. -/
  | take {w : World} {c : TaskCall} {i : Invocation} : w.Has c i → c.isCancelled = false →
      i.stage = .fresh → 0 < (w.pool (w.keyOf i)).free → Move A (actorOf c i) w []
        ((w.putPool (w.keyOf i) { w.pool (w.keyOf i) with free := (w.pool (w.keyOf i)).free - 1 }).putCall
          (c.setStage i.place .admitted))
  /-- An invocation with a permit and a place in its quota sends its request. -/
  | send {w : World} {c : TaskCall} {i : Invocation} {due : Option Nat} {response : Response} :
      w.Has c i → c.isCancelled = false → (i.stage = .admitted ∨ i.stage = .throttled) →
      w.checkQuota i.agent.partition = .ok due → A c.id (requestOf c i) response →
      Move A (actorOf c i) w [.sent c.id (requestOf c i) w.now]
        ((w.putDue i.agent.partition due).putCall (c.setStage i.place
          (.calling (w.now + (w.executor.curtail response).1) (w.executor.curtail response).2)))
  /-- A caller reports the results of its batch. -/
  | report {w : World} {c : TaskCall} : w.call? c.id = some c → c.live = [] →
      Move A (.caller c.id) w (c.gathered.map (.reported c.id)) (w.putCall (collect c))

/-- What an actor does at the end of its turn. -/
inductive LastMove : Actor → World → List Occurrence → World → Prop
  /-- An invocation waits for a permit. -/
  | enqueue {w : World} {c : TaskCall} {i : Invocation} : w.Has c i → c.isCancelled = false →
      i.stage = .fresh → (w.pool (w.keyOf i)).free = 0 → LastMove (actorOf c i) w []
        ((w.putPool (w.keyOf i) { w.pool (w.keyOf i) with
          waiting := (w.pool (w.keyOf i)).waiting ++ [actorOf c i] }).putCall
            (c.setStage i.place .queued))
  /-- An invocation waits for its quota. -/
  | throttle {w : World} {c : TaskCall} {i : Invocation} {time : Nat} : w.Has c i →
      c.isCancelled = false → (i.stage = .admitted ∨ i.stage = .throttled) →
      w.checkQuota i.agent.partition = .error time → LastMove (actorOf c i) w []
        ((w.putCall (c.setStage i.place .throttled)).sleepUntil time (actorOf c i))
  /-- An invocation waits for the backend. -/
  | await {w : World} {c : TaskCall} {i : Invocation} {endsAt : Nat} {ending : Ending} :
      w.Has c i → c.isCancelled = false → i.stage = .calling endsAt ending → w.now < endsAt →
      LastMove (actorOf c i) w [] (w.sleepUntil endsAt (actorOf c i))
  /-- An invocation ends, because its call is cancelled or because the backend replied. -/
  | finish {w : World} {c : TaskCall} {i : Invocation} {ending : Ending} : w.Has c i →
      (c.isCancelled = true ∧ ending = .cancelled ∨
        c.isCancelled = false ∧ ∃ endsAt, i.stage = .calling endsAt ending ∧ endsAt ≤ w.now) →
      LastMove (actorOf c i) w (endedIf c.id i) (w.finish c.id i ending)
  /-- A caller pauses before the next batch. -/
  | pause {w : World} {c : TaskCall} : w.call? c.id = some c → c.live = [] → c.gathered = [] →
      c.remaining ≠ [] → w.pauses c = true → LastMove (.caller c.id) w []
        ((w.putCall { c with isPausing := true }).sleepUntil
          (w.now + w.executor.strategy.pause.ceilMillis) (.caller c.id))
  /-- A caller dispatches the next batch. -/
  | dispatch {w : World} {c : TaskCall} {batch : List Nat} {rest : List (List Nat)} :
      w.call? c.id = some c → c.live = [] → c.gathered = [] → c.remaining = batch :: rest →
      w.pauses c = false → LastMove (.caller c.id) w (w.dispatch c batch rest).2
        (w.dispatch c batch rest).1
  /-- A call returns. -/
  | leave {w : World} {c : TaskCall} : w.call? c.id = some c → c.live = [] → c.gathered = [] →
      c.remaining = [] →
      LastMove (.caller c.id) w [.returned c.id c.results w.now] (w.dropCall c.id)

/-- What an actor does that has something to do: moves up to a last one. -/
inductive Acts (A : BackendLaw) (a : Actor) :
    World → List Occurrence → World → Prop
  | last {w w' : World} {seen : List Occurrence} : LastMove a w seen w' → Acts A a w seen w'
  | move {w w₁ w' : World} {seen later : List Occurrence} : Move A a w seen w₁ →
      Acts A a w₁ later w' → Acts A a w (seen ++ later) w'

/-- The turn of an actor: it has nothing to do, or it acts. -/
inductive Turn (A : BackendLaw) (a : Actor) (w : World) : List Occurrence → World → Prop
  | idle : w.Idle a → Turn A a w [] w
  | acts {w' : World} {seen : List Occurrence} : Acts A a w seen w' → Turn A a w seen w'

/-- An actor that goes on is no longer among the ready ones. -/
def rise (w : World) (a : Actor) : World := { w with ready := w.ready.erase a }

/-! ### Turns of invocations -/

section Invocations

variable {A : BackendLaw} {w : World} {c : TaskCall} {i : Invocation}
  {response : Response}

/-- An invocation that may ask the backend asks it, and then waits or ends. -/
theorem acts_send {due : Option Nat} (h : w.Has c i) (hc : c.isCancelled = false)
    (hs : i.stage = .admitted ∨ i.stage = .throttled)
    (hq : w.checkQuota i.agent.partition = .ok due) (hA : A c.id (requestOf c i) response) :
    Acts A (actorOf c i) w ((w.putDue i.agent.partition due).send c i response).2
      ((w.putDue i.agent.partition due).send c i response).1 := by
  have hmove := Move.send h hc hs hq hA
  have hdue : (w.putDue i.agent.partition due).Has c i := by
    cases due <;> exact ⟨h.call, h.unit⟩
  have hnow : (w.putDue i.agent.partition due).now = w.now := by cases due <;> rfl
  have hexec : (w.putDue i.agent.partition due).executor = w.executor := by cases due <;> rfl
  have hnext := hdue.setStage
    (.calling (w.now + (w.executor.curtail response).1) (w.executor.curtail response).2)
  by_cases hzero : (w.executor.curtail response).1 = 0
  · -- a response that takes no time ends the invocation in the same turn
    have hlast := LastMove.finish hnext (.inr ⟨hc, _, rfl, by simp [putCall, hnow, hzero]⟩)
    have hacts := Acts.move hmove (.last hlast)
    simpa [send, hnow, hexec, hzero, endedIf, Stage.isCalling] using hacts
  · have hlast := LastMove.await hnext hc rfl (by
      simp only [putCall, hnow]
      omega)
    have hacts := Acts.move hmove (.last hlast)
    simpa [send, hnow, hexec, hzero, putCall, actorOf] using hacts

/-- An invocation with a permit asks the backend or waits for its quota. -/
theorem acts_proceed (response : Response) (h : w.Has c i) (hc : c.isCancelled = false)
    (hs : i.stage = .admitted ∨ i.stage = .throttled)
    (hA : (w.checkQuota i.agent.partition).isOk = true → A c.id (requestOf c i) response) :
    Acts A (actorOf c i) w (w.proceed c i response).2 (w.proceed c i response).1 := by
  simp only [proceed]
  cases hq : w.checkQuota i.agent.partition with
  | ok due => exact acts_send h hc hs hq (hA (by rw [hq]; rfl))
  | error time => exact .last (.throttle h hc hs hq)

/-- An invocation that has not run yet takes a permit or waits for one. -/
theorem acts_enter (response : Response) (h : w.Has c i) (hc : c.isCancelled = false)
    (hs : i.stage = .fresh)
    (hA : 0 < (w.pool (w.keyOf i)).free → (w.checkQuota i.agent.partition).isOk = true →
      A c.id (requestOf c i) response) :
    Acts A (actorOf c i) w (w.enter c i response).2 (w.enter c i response).1 := by
  simp only [enter]
  by_cases hfree : 0 < (w.pool (w.executor.poolOf i.agent.partition)).free
  · rw [if_pos hfree]
    have hpool : (w.putPool (w.keyOf i) { w.pool (w.keyOf i) with
        free := (w.pool (w.keyOf i)).free - 1 }).Has c i := ⟨h.call, h.unit⟩
    have hnext := acts_proceed response (hpool.setStage .admitted) hc (.inl rfl) (hA hfree)
    exact .move (.take h hc hs hfree) hnext
  · rw [if_neg hfree]
    exact .last (.enqueue h hc hs (Nat.eq_zero_of_not_pos hfree))

/-- A live invocation that is not cancelled and only waits has nothing to do. -/
theorem idle_of_waiting (h : w.Has c i) (hc : c.isCancelled = false)
    (hs : i.stage = .queued ∨
      ∃ endsAt ending, i.stage = .calling endsAt ending ∧ w.now < endsAt) :
    w.Idle (actorOf c i) where
  caller := by simp [actorOf]
  unit := by
    intro d j hj hd
    obtain ⟨rfl, rfl⟩ := h.eq_of_actorOf hj hd.symm
    exact ⟨hc, hs⟩

/-- An invocation in its turn. -/
theorem turn_runInvocation (h : w.Has c i)
    (hA : ∀ request, w.request? (actorOf c i) = some request → A c.id request response) :
    Turn A (actorOf c i) w (w.runInvocation c i response).2 (w.runInvocation c i response).1 := by
  simp only [request?, actorOf, Actor.call, h.call, h.unit] at hA
  simp only [runInvocation]
  cases hc : c.isCancelled with
  | true => exact .acts (.last (.finish h (.inl ⟨hc, rfl⟩)))
  | false =>
      simp only [hc, Bool.not_false, Bool.true_and] at hA
      rw [if_neg Bool.false_ne_true]
      cases hs : i.stage with
      | fresh =>
          -- what the invocation does next, it does with the time it has taken
          simp only [hs] at hA
          have hnext := acts_enter (A := A) response
            (h.adjust (f := fun j => { j with startedAt := w.now }) fun _ => rfl) hc hs ?_
          · rw [hs] at hnext
            exact .acts (.move (.start h hc hs) hnext)
          · intro hfree hquota
            have hfree' : 0 < (w.pool (w.executor.poolOf i.agent.partition)).free := hfree
            have hquota' : (w.checkQuota i.agent.partition).isOk = true := hquota
            exact hA _ (if_pos (by simp [hfree', hquota']))
      | queued => exact .idle (idle_of_waiting h hc (.inl hs))
      | admitted =>
          simp only [hs] at hA
          exact .acts (acts_proceed response h hc (.inl hs) fun hquota =>
            hA _ (if_pos (by simp [hquota])))
      | throttled =>
          simp only [hs] at hA
          exact .acts (acts_proceed response h hc (.inr hs) fun hquota =>
            hA _ (if_pos (by simp [hquota])))
      | calling endsAt ending =>
          by_cases hdue : endsAt ≤ w.now
          · simp only [hdue, if_true]
            exact .acts (.last (.finish h (.inr ⟨hc, endsAt, hs, hdue⟩)))
          · simp only [hdue, if_false]
            exact .idle (idle_of_waiting h hc (.inr ⟨endsAt, ending, hs, by omega⟩))

end Invocations

/-! ### Turns of callers -/

/-- A batch is dispatched from the last version of its call that was written. -/
theorem dispatch_putCall (w : World) {c d : TaskCall} (h : c.id = d.id) (batch : List Nat)
    (rest : List (List Nat)) : (w.putCall c).dispatch d batch rest = w.dispatch d batch rest := by
  simp only [dispatch]
  rw [putCall_putCall w (by exact h)]
  rfl

/-- A caller in its turn. -/
theorem turn_runCaller {A : BackendLaw} {w : World} {c : TaskCall}
    (h : w.call? c.id = some c) :
    Turn A (.caller c.id) w (w.runCaller c).2 (w.runCaller c).1 := by
  simp only [runCaller]
  cases hl : c.live with
  | cons i rest =>
      refine .idle ⟨?_, by simp [actorOf]⟩
      intro id d hid hd
      simp only [Actor.caller.injEq] at hid
      rw [← hid, h] at hd
      simp [← Option.some.inj hd, hl]
  | nil =>
      have hmove := Move.report (A := A) h hl
      have hcall : (w.putCall (collect c)).call? (collect c).id = some (collect c) :=
        call?_putCall_self h
      rw [if_neg (by simp)]
      cases hr : (collect c).remaining with
      | nil =>
          have hlast := LastMove.leave hcall hl rfl hr
          rw [dropCall_putCall] at hlast
          exact .acts (.move hmove (.last hlast))
      | cons batch rest =>
          -- the call as it was reported is written, and at once replaced by its next version
          have hpauses : (w.putCall (collect c)).pauses (collect c) = w.pauses (collect c) := rfl
          cases hp : w.pauses (collect c) with
          | true =>
              have hlast := LastMove.pause hcall hl rfl (by simp [hr]) (hpauses.trans hp)
              rw [putCall_putCall w (by rfl)] at hlast
              have hacts := Acts.move hmove (.last hlast)
              rw [List.append_nil] at hacts
              simp only [if_true, ← hr]
              exact .acts hacts
          | false =>
              have hlast := LastMove.dispatch hcall hl rfl hr (hpauses.trans hp)
              rw [dispatch_putCall w rfl] at hlast
              have hacts := Acts.move hmove (.last hlast)
              simpa only [hp, Bool.false_eq_true, if_false] using Turn.acts hacts

/-! ### Turns -/

/-- **A step in which an actor goes on is a turn**: the actor was ready, and in a world in which it
no longer is it makes its moves. -/
theorem turn_of_step? {A : BackendLaw} {w w' : World} {a : Actor}
    {response : Response} {seen : List Occurrence}
    (h : w.step? (.run a response) = some (w', seen))
    (hA : ∀ request, w.request? a = some request → A a.call request response) :
    a ∈ w.ready ∧ Turn A a (w.rise a) seen w' := by
  simp only [step?, Option.ite_none_right_eq_some, Option.some.injEq] at h
  obtain ⟨ha, h⟩ := h
  refine ⟨ha, ?_⟩
  have hturn : Turn A a (w.rise a) (w.runActor a response).2 (w.runActor a response).1 := by
    simp only [runActor]
    cases hc : (w.rise a).call? a.call with
    | none =>
        rw [show ({ w with ready := w.ready.erase a } : World).call? a.call = none from hc]
        refine .idle ⟨?_, ?_⟩
        · rintro id c rfl hcall
          rw [show Actor.call (.caller id) = id from rfl, hcall] at hc
          cases hc
        · rintro c i hi rfl
          rw [show Actor.call (actorOf c i) = c.id from rfl, hi.call] at hc
          cases hc
    | some c =>
        rw [show ({ w with ready := w.ready.erase a } : World).call? a.call = some c from hc]
        cases a with
        | caller id =>
            obtain rfl : c.id = id := id_of_call? hc
            exact turn_runCaller hc
        | invocation id place =>
            obtain rfl : c.id = id := id_of_call? hc
            cases hi : c.invocation? place with
            | none =>
                simp only [hi]
                refine .idle ⟨by simp, ?_⟩
                intro d j hj hd
                simp only [actorOf, Actor.invocation.injEq] at hd
                have hcd : some d = some c := by
                  rw [← hj.call, ← hd.1]
                  exact hc
                obtain rfl := Option.some.inj hcd
                rw [hd.2, hj.unit] at hi
                simp at hi
            | some i =>
                obtain rfl := TaskCall.place_of_invocation? hi
                simp only [hi]
                exact turn_runInvocation ⟨hc, hi⟩ hA
  rwa [h] at hturn

/-! ### What a turn leaves alone -/

/-- Nothing was done to the executor, the time and the number of the next call. -/
structure Steady (w v : World) : Prop where
  executor : v.executor = w.executor
  now : v.now = w.now
  nextCall : v.nextCall = w.nextCall

theorem Steady.refl (w : World) : Steady w w := ⟨rfl, rfl, rfl⟩

theorem Steady.trans {u v w : World} (h : Steady u v) (h' : Steady v w) : Steady u w :=
  ⟨h'.executor.trans h.executor, h'.now.trans h.now, h'.nextCall.trans h.nextCall⟩

section Steady

variable {A : BackendLaw} {w w' : World} {a : Actor} {seen : List Occurrence}

theorem steady_leavePool (w : World) (id : Nat) (i : Invocation) :
    Steady w (w.leavePool id i) := by
  have hrelease : ∀ key, Steady w (w.releasePermit key) := by
    intro key
    simp only [releasePermit]
    split
    · exact ⟨rfl, rfl, rfl⟩
    · split
      · exact ⟨rfl, rfl, rfl⟩
      · split
        all_goals exact ⟨rfl, rfl, rfl⟩
  unfold leavePool
  split
  · exact .refl w
  · exact ⟨rfl, rfl, rfl⟩
  all_goals exact hrelease _

theorem steady_detach (w : World) (id : Nat) (i : Invocation) : Steady w (w.detach id i) := by
  have hleave := steady_leavePool w id i
  simp only [detach]
  split
  all_goals exact hleave.trans ⟨rfl, rfl, rfl⟩

theorem steady_finish (w : World) (id : Nat) (i : Invocation) (ending : Ending) :
    Steady w (w.finish id i ending) := by
  have hdetach := steady_detach w id i
  simp only [finish]
  split
  · exact hdetach
  · split
    all_goals exact hdetach.trans ⟨rfl, rfl, rfl⟩

theorem Move.steady (hm : Move A a w seen w') : Steady w w' := by
  cases hm with
  | start | take | report => exact ⟨rfl, rfl, rfl⟩
  | @send _ c i due response => cases due <;> exact ⟨rfl, rfl, rfl⟩

theorem LastMove.steady (hm : LastMove a w seen w') : Steady w w' := by
  cases hm with
  | finish => exact steady_finish _ _ _ _
  | _ => exact ⟨rfl, rfl, rfl⟩

theorem Acts.steady (ha : Acts A a w seen w') : Steady w w' := by
  induction ha with
  | last hm => exact hm.steady
  | move hm _ ih => exact hm.steady.trans ih

/-- **A turn does nothing to the executor, the time and the number of the next call.** -/
theorem Turn.steady (ht : Turn A a w seen w') : Steady w w' := by
  cases ht with
  | idle _ => exact .refl w
  | acts ha => exact ha.steady

/-- The actors that are roused when a call is cancelled: its invocations, and its caller when it
pauses. -/
def roused (c : TaskCall) : List Actor :=
  c.live.map (actorOf c) ++ if c.isPausing then [.caller c.id] else []

theorem cancelCall_eq (w : World) (c : TaskCall) :
    w.cancelCall c = (roused c).foldl rouse (w.putCall { c with isCancelled := true }) := by
  rw [roused, List.foldl_append, List.foldl_map]
  simp only [cancelCall]
  split <;> rfl

/-- What holds when a call has its flag, and is kept when an actor is roused, holds when the call is
cancelled. -/
theorem cancelCall_keeps {P : World → Prop} {c : TaskCall}
    (hflag : P (w.putCall { c with isCancelled := true }))
    (hrouse : ∀ v a, P v → P (v.rouse a)) : P (w.cancelCall c) := by
  rw [cancelCall_eq]
  exact List.foldlRecOn _ _ hflag fun v hv a _ => hrouse v a hv

theorem steady_cancelCall (w : World) (c : TaskCall) : Steady w (w.cancelCall c) :=
  cancelCall_keeps ⟨rfl, rfl, rfl⟩ fun _ _ h => h.trans ⟨rfl, rfl, rfl⟩

theorem steady_abandonCall (w : World) (c : TaskCall) : Steady w (w.abandonCall c).1 := by
  have hfold : Steady w ((c.live.map (·.place)).foldl (abandonInvocation c.id) w) := by
    refine List.foldlRecOn _ _ (.refl w) fun v hv place _ => hv.trans ?_
    unfold abandonInvocation
    split
    · exact .refl v
    · exact steady_detach _ _ _
  exact hfold.trans ⟨rfl, rfl, rfl⟩

end Steady

end World

end AgentSwarm
