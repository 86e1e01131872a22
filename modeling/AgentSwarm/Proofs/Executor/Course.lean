/-
**The course of one call.**

Whatever the other calls of an executor do, one call is only touched in a few ways: its own
invocations start, wait, ask the backend and end, and its caller reports, pauses and dispatches the
next batch.  From outside come permits, and the two things its owner may do at any time: cancel it
and abandon it.  Every step of the world is projected to such moves of the call, and an invariant of
a call needs to be proved for the moves only.

Main definitions:

* `AgentSwarm.TaskCall.Move`, `AgentSwarm.TaskCall.Moves` — what happens to a call;
* `AgentSwarm.Fate` — what becomes of a call in a step;
* `AgentSwarm.CourseInvariant` — an invariant of a call and of what was seen of it.

Main results:

* `AgentSwarm.World.Turn.fate`, `AgentSwarm.World.Step.fate` — **the projection of a step**;
* `AgentSwarm.World.Step.returns` — at most one call returns in a step;
* `AgentSwarm.World.Step.call?_eq_none_iff` — a call goes on unless it returns or is abandoned;
* `AgentSwarm.CourseInvariant.run` — an invariant of the moves holds along every run.
-/

import AgentSwarm.Proofs.Executor.Ceiling

set_option relaxedAutoImplicit false
set_option autoImplicit false

namespace AgentSwarm

/-! ### What is seen of a call -/

/-- The number of the call that an occurrence is about. -/
def Occurrence.call : Occurrence → Nat
  | .dispatched call _ _ _ | .sent call _ _ | .ended call _ | .reported call _
  | .returned call _ _ => call

/-- What is seen of the call of a number. -/
def seenOf (k : Nat) (seen : List Occurrence) : List Occurrence := seen.filter (·.call == k)

@[simp] theorem seenOf_nil (k : Nat) : seenOf k [] = [] := rfl

@[simp] theorem seenOf_append (k : Nat) (seen later : List Occurrence) :
    seenOf k (seen ++ later) = seenOf k seen ++ seenOf k later :=
  List.filter_append ..

theorem mem_seenOf {k : Nat} {seen : List Occurrence} {o : Occurrence} :
    o ∈ seenOf k seen ↔ o ∈ seen ∧ o.call = k := by
  simp [seenOf]

theorem seenOf_eq_self {k : Nat} {seen : List Occurrence} (h : ∀ o ∈ seen, o.call = k) :
    seenOf k seen = seen := by
  rw [seenOf, List.filter_eq_self]
  intro o ho
  simp [h o ho]

theorem seenOf_eq_nil {k j : Nat} {seen : List Occurrence} (h : ∀ o ∈ seen, o.call = j)
    (hk : k ≠ j) : seenOf k seen = [] := by
  rw [seenOf, List.filter_eq_nil_iff]
  intro o ho
  simp [h o ho, hk.symm]

/-- Of an invocation that leaves the backend only this is seen. -/
theorem eq_of_mem_endedIf {k : Nat} {i : Invocation} {o : Occurrence}
    (h : o ∈ World.endedIf k i) : o = .ended k i.agent.id := by
  unfold World.endedIf at h
  split at h
  · exact List.mem_singleton.1 h
  · cases h

/-- Leaving the backend is seen of the own call. -/
theorem call_of_mem_endedIf {k : Nat} {i : Invocation} {o : Occurrence}
    (h : o ∈ World.endedIf k i) : o.call = k := by
  rw [eq_of_mem_endedIf h]
  rfl

/-! ### What happens to a call -/

namespace TaskCall

open World (requestOf endedIf collect openBatch batchAgents)

/-- The call with its next batch open. -/
def openNext (c : TaskCall) (now serial : Nat) (batch : List Nat) (rest : List (List Nat)) :
    TaskCall :=
  { c with
    remaining := rest, dispatched := c.dispatched + 1, isPausing := false
    live := (openBatch c now serial (batchAgents c batch)).2
    gathered := (openBatch c now serial (batchAgents c batch)).1 }

/-- The invocations of the next batch have not run yet, and their places are those of the batch. -/
theorem live_openNext (c : TaskCall) (now serial : Nat) (batch : List Nat)
    (rest : List (List Nat)) :
    (∀ i ∈ (c.openNext now serial batch rest).live, i.stage = .fresh) ∧
      ((c.openNext now serial batch rest).live.map (·.place)).Sublist batch := by
  obtain ⟨hfresh, hplaces⟩ := World.openBatch_spec c now serial (batchAgents c batch)
  exact ⟨hfresh, hplaces.trans (World.map_fst_batchAgents_sublist c batch)⟩

/-- What happens to a call at a time, and what is seen of it. -/
inductive Move (A : BackendLaw) (x : Executor) (now : Nat) (c : TaskCall) :
    List Occurrence → TaskCall → Prop
  /-- An invocation that has not run yet takes the time. -/
  | start {i : Invocation} : c.invocation? i.place = some i → c.isCancelled = false →
      i.stage = .fresh →
      Move A x now c [] (c.adjust i.place fun j => { j with startedAt := now })
  /-- An invocation that is not at the backend waits, or gets a permit. -/
  | wait {i : Invocation} {stage : Stage} : c.invocation? i.place = some i →
      i.stage.isCalling = false → stage.isCalling = false → Move A x now c [] (c.setStage i.place stage)
  /-- An invocation sends its request. -/
  | send {i : Invocation} {response : Response} : c.invocation? i.place = some i →
      c.isCancelled = false → i.stage.isCalling = false → A c.id (requestOf c i) response →
      Move A x now c [.sent c.id (requestOf c i) now] (c.setStage i.place
        (.calling (now + (x.curtail response).1) (x.curtail response).2))
  /-- An invocation ends, because its call is cancelled or because the backend replied. -/
  | finish {i : Invocation} {ending : Ending} : c.invocation? i.place = some i →
      (c.isCancelled = true ∧ ending = .cancelled ∨
        c.isCancelled = false ∧ ∃ endsAt, i.stage = .calling endsAt ending ∧ endsAt ≤ now) →
      Move A x now c (endedIf c.id i)
        (c.settle i (x.resultOf i.agent i.serial i.startedAt now ending))
  /-- The caller reports the results of its batch. -/
  | report : c.live = [] → Move A x now c (c.gathered.map (.reported c.id)) (collect c)
  /-- The caller pauses before the next batch. -/
  | pause : c.live = [] → c.gathered = [] → c.isCancelled = false →
      Move A x now c [] { c with isPausing := true }
  /-- The caller dispatches the next batch. -/
  | dispatch {batch : List Nat} {rest : List (List Nat)} {serial : Nat} : c.live = [] →
      c.gathered = [] → c.remaining = batch :: rest →
      Move A x now c
        [.dispatched c.id c.dispatched ((batchAgents c batch).map fun m => m.2.id) now]
        (c.openNext now serial batch rest)

/-- Moves one after another. -/
inductive Moves (A : BackendLaw) (x : Executor) (now : Nat) (c : TaskCall) :
    List Occurrence → TaskCall → Prop
  | refl : Moves A x now c [] c
  | step {seen later : List Occurrence} {c₁ c₂ : TaskCall} : Moves A x now c seen c₁ →
      Move A x now c₁ later c₂ → Moves A x now c (seen ++ later) c₂

variable {A : BackendLaw} {x : Executor} {now : Nat} {c d e : TaskCall}
  {seen later : List Occurrence}

theorem Move.id_eq (h : Move A x now c seen d) : d.id = c.id := by cases h <;> rfl

theorem Move.call_eq (h : Move A x now c seen d) : ∀ o ∈ seen, o.call = c.id := by
  cases h with
  | finish => exact fun o ho => call_of_mem_endedIf ho
  | report =>
      intro o ho
      obtain ⟨r, _, rfl⟩ := List.mem_map.1 ho
      rfl
  | start | wait | pause => simp
  | send | dispatch =>
      intro o ho
      obtain rfl := List.mem_singleton.1 ho
      rfl

/-- No move is a return. -/
theorem Move.not_returned (h : Move A x now c seen d) :
    ∀ k results time, .returned k results time ∉ seen := by
  intro k results time hmem
  cases h with
  | finish => cases eq_of_mem_endedIf hmem
  | report =>
      obtain ⟨r, _, hr⟩ := List.mem_map.1 hmem
      cases hr
  | start | wait | pause => cases hmem
  | send | dispatch => cases List.mem_singleton.1 hmem

theorem Move.moves (h : Move A x now c seen d) : Moves A x now c seen d := by
  simpa using Moves.step .refl h

theorem Moves.trans (h : Moves A x now c seen d) (h' : Moves A x now d later e) :
    Moves A x now c (seen ++ later) e := by
  induction h' with
  | refl => rwa [List.append_nil]
  | step _ hm ih =>
      rw [← List.append_assoc]
      exact .step ih hm

theorem Moves.not_returned (h : Moves A x now c seen d) :
    ∀ k results time, .returned k results time ∉ seen := by
  induction h with
  | refl => simp
  | step _ hm ih =>
      intro k results time hmem
      rcases List.mem_append.1 hmem with hmem | hmem
      · exact ih k results time hmem
      · exact hm.not_returned k results time hmem

end TaskCall

/-- What becomes of the call of a number in a step, and what is seen of it. -/
inductive Fate (A : BackendLaw) (x : Executor) (now : Nat) :
    Option TaskCall → List Occurrence → Option TaskCall → Prop
  /-- There is no call. -/
  | gone : Fate A x now none [] none
  /-- The call goes on. -/
  | on {c d : TaskCall} {seen : List Occurrence} : TaskCall.Moves A x now c seen d →
      Fate A x now (some c) seen (some d)
  /-- The call returns. -/
  | returned {c d : TaskCall} {seen : List Occurrence} : TaskCall.Moves A x now c seen d →
      d.live = [] → d.gathered = [] → d.remaining = [] →
      Fate A x now (some c) (seen ++ [.returned d.id d.results now]) none

namespace Fate

variable {A : BackendLaw} {x : Executor} {now : Nat} {o o₁ o₂ : Option TaskCall}
  {seen later : List Occurrence}

theorem refl (o : Option TaskCall) : Fate A x now o [] o := by
  cases o with
  | none => exact .gone
  | some c => exact .on .refl

theorem trans (h : Fate A x now o seen o₁) (h' : Fate A x now o₁ later o₂) :
    Fate A x now o (seen ++ later) o₂ := by
  cases h with
  | gone => exact h'
  | on hm =>
      cases h' with
      | on hm' => exact .on (hm.trans hm')
      | returned hm' hlive hgathered hrem =>
          rw [← List.append_assoc]
          exact .returned (hm.trans hm') hlive hgathered hrem
  | returned hm hlive hgathered hrem =>
      cases h'
      rw [List.append_nil]
      exact .returned hm hlive hgathered hrem

/-- A call that does not return is seen to go on, and a return is the last that is seen of it. -/
theorem returns (h : Fate A x now o seen o₁) :
    (∀ k results time, .returned k results time ∉ seen) ∨
      o₁ = none ∧ ∃ later k results time, seen = later ++ [.returned k results time] ∧
        ∀ k results time, .returned k results time ∉ later := by
  cases h with
  | gone => exact .inl (by simp)
  | on hm => exact .inl hm.not_returned
  | returned hm => exact .inr ⟨rfl, _, _, _, _, rfl, hm.not_returned⟩

/-- A call that is not there does not come back, and nothing is seen of it. -/
theorem of_none (h : Fate A x now none seen o) : o = none ∧ seen = [] := by
  cases h with
  | gone => exact ⟨rfl, rfl⟩

/-- A call that is gone has returned, unless it was not there. -/
theorem exists_returned (h : Fate A x now o seen none) :
    o = none ∨ ∃ k results, .returned k results now ∈ seen := by
  cases h with
  | gone => exact .inl rfl
  | returned => exact .inr ⟨_, _, List.mem_append_right _ (List.mem_singleton_self _)⟩

end Fate

namespace World

variable {A : BackendLaw} {a : Actor} {w w' v : World} {c d : TaskCall} {i : Invocation}
  {seen : List Occurrence} {k : Nat}

/-! ### The projection of a turn -/

/-- Only the calls of a world decide what it knows of a call. -/
theorem call?_congr (h : v.calls = w.calls) (k : Nat) : v.call? k = w.call? k := by
  simp only [call?, h]

/-- The move of a call that is written is its fate, and nothing happens to the others. -/
theorem fate_putCall {x : Executor} {now : Nat} (hc : w.call? c.id = some c)
    (hm : TaskCall.Move A x now c seen d) (k : Nat) :
    Fate A x now (w.call? k) (seenOf k seen) ((w.putCall d).call? k) := by
  by_cases hk : k = c.id
  · subst hk
    rw [seenOf_eq_self hm.call_eq, hc, ← hm.id_eq,
      call?_putCall_self (c := d) (hm.id_eq.symm ▸ hc)]
    exact .on hm.moves
  · rw [seenOf_eq_nil hm.call_eq hk, call?_putCall_of_ne (by rw [hm.id_eq]; exact hk)]
    exact .refl _

theorem Move.fate (hm : Move A a w seen w') (k : Nat) :
    Fate A w.executor w.now (w.call? k) (seenOf k seen) (w'.call? k) := by
  cases hm with
  | start hi hc hs => exact fate_putCall hi.call (.start hi.unit hc hs) k
  | take hi hc hs hfree =>
      exact fate_putCall hi.call (.wait hi.unit (by rw [hs]; rfl) rfl) k
  | @send _ c i due response hi hc hs hq hA =>
      have hcalling : i.stage.isCalling = false := by rcases hs with hs | hs <;> rw [hs] <;> rfl
      have hsend : TaskCall.Move A w.executor w.now c _ (c.setStage i.place _) :=
        .send hi.unit hc hcalling hA
      have hfate := fate_putCall hi.call hsend k
      cases due <;> exact hfate
  | report hc hlive => exact fate_putCall hc (.report hlive) k

/-- A call may get a permit at any time. -/
theorem Granted.fate {x : Executor} {now : Nat} (h : Granted c d) :
    Fate A x now (some c) [] (some d) := by
  cases h with
  | same => exact .refl _
  | given hj hs => exact .on (TaskCall.Move.moves (.wait hj (by rw [hs]; rfl) rfl))

/-- A number without a call stays without one when an invocation is given up. -/
theorem call?_detach_eq_none (h : w.Queued none) (hi : w.Has c i) (hk : w.call? k = none) :
    (w.detach c.id i).call? k = none := by
  obtain ⟨c₁, _, _, he⟩ := detach_eq h hi
  have hleave : (w.leavePool c.id i).call? k = none := by
    rcases leavePool_cases h hi with ⟨pools, he⟩ | ⟨pools, e, j, _, _, _, he⟩
    · rw [he]
      exact hk
    · rw [he]
      change (w.putCall (e.setStage j.place .admitted)).call? k = none
      simp [call?_putCall, hk]
  rw [he]
  change ((w.leavePool c.id i).putCall (c₁.without i.place)).call? k = none
  simp [call?_putCall, hleave]

/-- The other calls when an invocation is given up. -/
theorem fate_detach_of_ne {x : Executor} {now : Nat} (h : w.Queued none) (hi : w.Has c i)
    (hk : k ≠ c.id) : Fate A x now (w.call? k) [] ((w.detach c.id i).call? k) := by
  cases hd : w.call? k with
  | none =>
      rw [call?_detach_eq_none h hi hd]
      exact .gone
  | some d =>
      obtain ⟨d₁, hgrant, hcall⟩ := call?_detach_of_ne h hi hk hd
      rw [hcall]
      exact hgrant.fate

/-- What becomes of the calls when an invocation ends. -/
theorem fate_finish {ending : Ending} (h : w.Queued none) (hi : w.Has c i)
    (hending : c.isCancelled = true ∧ ending = .cancelled ∨
      c.isCancelled = false ∧ ∃ endsAt, i.stage = .calling endsAt ending ∧ endsAt ≤ w.now) (k : Nat) :
    Fate A w.executor w.now (w.call? k) (seenOf k (endedIf c.id i))
      ((w.finish c.id i ending).call? k) := by
  obtain ⟨c₁, hgrant, hunit, hcall, he⟩ := finish_eq h hi ending
  have hresult : (w.finish c.id i ending).call? k = ((w.detach c.id i).putCall (c₁.settle i
      (w.executor.resultOf i.agent i.serial i.startedAt w.now ending))).call? k := by
    rw [he]
    dsimp only
    split <;> rfl
  rw [hresult]
  by_cases hk : k = c.id
  · -- the permit may have gone to another invocation of the same call before
    subst hk
    have hcancelled : c₁.isCancelled = c.isCancelled := by cases hgrant <;> rfl
    have hput := call?_putCall_self (w := w.detach c.id i) (c := c₁.settle i
      (w.executor.resultOf i.agent i.serial i.startedAt w.now ending))
      (d := c₁.without i.place) (hgrant.id_eq ▸ hcall)
    have hid : (c₁.settle i
      (w.executor.resultOf i.agent i.serial i.startedAt w.now ending)).id = c.id := hgrant.id_eq
    rw [hid] at hput
    rw [hput, hi.call, seenOf_eq_self fun _ ho => call_of_mem_endedIf ho]
    have hfinish : TaskCall.Move A w.executor w.now c₁ (endedIf c₁.id i) _ :=
      .finish hunit (hcancelled ▸ hending)
    rw [hgrant.id_eq] at hfinish
    exact (hgrant.fate (A := A)).trans (.on hfinish.moves)
  · rw [seenOf_eq_nil (fun _ ho => call_of_mem_endedIf ho) hk,
      call?_putCall_of_ne (by rw [show (c₁.settle i _).id = c₁.id from rfl, hgrant.id_eq]; exact hk)]
    exact fate_detach_of_ne h hi hk

theorem LastMove.fate (hm : LastMove a w seen w') (h : w.Sound) (k : Nat) :
    Fate A w.executor w.now (w.call? k) (seenOf k seen) (w'.call? k) := by
  cases hm with
  | enqueue hi hc hs _ => exact fate_putCall hi.call (.wait hi.unit (by rw [hs]; rfl) rfl) k
  | @throttle _ c i time hi hc hs _ =>
      have hcalling : i.stage.isCalling = false := by rcases hs with hs | hs <;> rw [hs] <;> rfl
      exact fate_putCall hi.call (.wait hi.unit hcalling rfl) k
  | await _ _ _ _ => exact .refl _
  | finish hi hending => exact fate_finish h.queued hi hending k
  | @pause _ c hc hlive hgathered _ hp =>
      have hcancelled : c.isCancelled = false := by
        simp only [pauses, Bool.and_eq_true, Bool.not_eq_true'] at hp
        exact hp.1.2
      exact fate_putCall hc (.pause hlive hgathered hcancelled) k
  | @dispatch _ c batch rest hc hlive hgathered hrem _ =>
      have hdispatch : TaskCall.Move A w.executor w.now c _
          (c.openNext w.now w.nextSerial batch rest) := .dispatch hlive hgathered hrem
      exact fate_putCall hc hdispatch k
  | @leave _ c hc hlive hgathered hrem =>
      rw [call?_dropCall]
      by_cases hk : k = c.id
      · subst hk
        rw [if_pos rfl, hc, seenOf_eq_self (by simp [Occurrence.call])]
        exact .returned .refl hlive hgathered hrem
      · rw [if_neg hk, seenOf_eq_nil (j := c.id) (by simp [Occurrence.call]) hk]
        exact .refl _

theorem Acts.fate (ha : Acts A a w seen w') (h : w.Sound) (k : Nat) :
    Fate A w.executor w.now (w.call? k) (seenOf k seen) (w'.call? k) := by
  induction ha with
  | last hm => exact hm.fate h k
  | move hm _ ih =>
      have hrest := ih (hm.sound h)
      rw [hm.steady.executor, hm.steady.now] at hrest
      rw [seenOf_append]
      exact (hm.fate k).trans hrest

/-- **The projection of a turn.** -/
theorem Turn.fate (ht : Turn A a w seen w') (h : w.Sound) (k : Nat) :
    Fate A w.executor w.now (w.call? k) (seenOf k seen) (w'.call? k) := by
  cases ht with
  | idle _ => exact .refl _
  | acts ha => exact ha.fate h k

/-! ### The projection of a step -/

/-- Cancelling a call writes its flag, and changes no other call. -/
theorem call?_cancelCall (w : World) (c : TaskCall) (k : Nat) :
    (w.cancelCall c).call? k = (w.putCall { c with isCancelled := true }).call? k := by
  have hcalls : (w.cancelCall c).calls = (w.putCall { c with isCancelled := true }).calls :=
    cancelCall_keeps (P := fun v => v.calls = _) rfl fun _ _ h => h
  exact call?_congr hcalls k

/-- What becomes of the other calls when one is abandoned. -/
theorem fate_abandonCall_of_ne {x : Executor} {now : Nat} (h : w.Sound)
    (hc : w.call? c.id = some c) (hk : k ≠ c.id) :
    Fate A x now (w.call? k) [] ((w.abandonCall c).1.call? k) := by
  obtain ⟨_, hfate, _⟩ := fold_abandonInvocation
    (P := fun v => Fate A x now (w.call? k) [] (v.call? k))
    (fun v d i hv hfate hi hid =>
      hfate.trans (fate_detach_of_ne hv.queued hi (hid ▸ hk)))
    (c.live.map (·.place)) h (.refl _) hc fun _ hp => hp
  have hdrop := call?_dropCall ((c.live.map (·.place)).foldl (abandonInvocation c.id) w) c.id k
  rw [if_neg hk] at hdrop
  change Fate A x now _ [] ((World.dropCall _ c.id).call? k)
  rw [hdrop]
  exact hfate

/-- A call that is abandoned is gone, and only those who leave the backend are seen. -/
theorem Step.abandoned {k : Nat} (hs : Step A w (.abandon k) seen w') :
    w'.call? k = none ∧ ∀ o ∈ seen, ∃ id, o = .ended k id := by
  cases hs with
  | @abandon c _ =>
      refine ⟨?_, fun o ho => ?_⟩
      · change (World.dropCall _ c.id).call? c.id = none
        rw [call?_dropCall, if_pos rfl]
      · obtain ⟨i, _, hi⟩ := List.mem_flatMap.1 ho
        exact ⟨i.agent.id, eq_of_mem_endedIf hi⟩

/-- **The projection of a step**: a call is cancelled, abandoned, or goes its own way. -/
theorem Step.fate {act : Action} (hs : Step A w act seen w') (h : w.Sound) (hk : k < w.nextCall) :
    (act = .cancel k ∧ seenOf k seen = [] ∧ ∃ c, w.call? k = some c ∧
      w'.call? k = some { c with isCancelled := true }) ∨
    (act = .abandon k ∧ ∃ c, w.call? k = some c ∧ w'.call? k = none ∧
      seenOf k seen = c.live.flatMap (endedIf c.id)) ∨
    Fate A w.executor w.now (w.call? k) (seenOf k seen) (w'.call? k) := by
  cases hs with
  | begin agents task prompts =>
      refine .inr (.inr ?_)
      rw [call?_beginCall _ _ _ _ (by omega)]
      exact .refl _
  | turn _ ht => exact .inr (.inr (ht.fate (h.rise _) k))
  | @cancel c hc =>
      rw [call?_cancelCall]
      by_cases hck : k = c.id
      · subst hck
        exact .inl ⟨rfl, rfl, c, hc, call?_putCall_self (c := { c with isCancelled := true }) hc⟩
      · refine .inr (.inr ?_)
        rw [call?_putCall_of_ne (c := { c with isCancelled := true }) hck]
        exact .refl _
  | @abandon c hc =>
      have hseen : ∀ o ∈ (w.abandonCall c).2, o.call = c.id := by
        intro o ho
        obtain ⟨i, _, hi⟩ := List.mem_flatMap.1 ho
        exact call_of_mem_endedIf hi
      by_cases hck : k = c.id
      · subst hck
        exact .inr (.inl ⟨rfl, c, hc, (Step.abandon (A := A) hc).abandoned.1, seenOf_eq_self hseen⟩)
      · rw [seenOf_eq_nil hseen hck]
        exact .inr (.inr (fate_abandonCall_of_ne h hc hck))
  | pass _ _ _ => exact .inr (.inr (.refl _))

/-- No move of an actor is a return. -/
theorem Move.not_returned (hm : Move A a w seen w') :
    ∀ k results time, .returned k results time ∉ seen := by
  intro k results time hmem
  cases hm with
  | start | take => cases hmem
  | send => cases List.mem_singleton.1 hmem
  | report =>
      obtain ⟨r, _, hr⟩ := List.mem_map.1 hmem
      cases hr

/-- An actor returns at the end of its turn, if at all. -/
theorem Acts.returns (ha : Acts A a w seen w') :
    (∀ k results time, .returned k results time ∉ seen) ∨
      ∃ before k results time, seen = before ++ [.returned k results time] ∧
        ∀ k results time, .returned k results time ∉ before := by
  induction ha with
  | last hm =>
      cases hm with
      | enqueue | throttle | await | pause => exact .inl (by simp)
      | finish =>
          refine .inl fun k results time hmem => ?_
          cases eq_of_mem_endedIf hmem
      | dispatch => exact .inl (by simp [World.dispatch])
      | leave => exact .inr ⟨[], _, _, _, rfl, by simp⟩
  | move hm _ ih =>
      rcases ih with hnone | ⟨before, k, results, time, rfl, hnone⟩
      · refine .inl fun k results time hmem => ?_
        exact (List.mem_append.1 hmem).elim (hm.not_returned k results time)
          (hnone k results time)
      · refine .inr ⟨_, k, results, time, (List.append_assoc ..).symm, ?_⟩
        intro k results time hmem
        exact (List.mem_append.1 hmem).elim (hm.not_returned k results time)
          (hnone k results time)

/-- **At most one call returns in a step**: an actor goes on, and at last its call, which was there,
returns. -/
theorem Step.returns {act : Action} (hs : Step A w act seen w') (h : w.Sound) :
    (∀ k results time, .returned k results time ∉ seen) ∨
      ∃ before k results time c actor response, seen = before ++ [.returned k results time] ∧
        (∀ k results time, .returned k results time ∉ before) ∧ w.call? k = some c ∧
        act = .run actor response := by
  cases hs with
  | begin | cancel | pass => exact .inl (by simp)
  | @abandon c hc =>
      refine .inl fun k results time hmem => ?_
      obtain ⟨id, hid⟩ := (Step.abandon (A := A) hc).abandoned.2 _ hmem
      cases hid
  | @turn a response _ _ _ ht =>
      have hfate := fun k => ht.fate (h.rise a) k
      cases ht with
      | idle => exact .inl (by simp)
      | acts ha =>
          rcases ha.returns with hnone | ⟨before, k, results, time, rfl, hnone⟩
          · exact .inl hnone
          · have hcall : w.call? k ≠ none := by
              -- of a call that is not there nothing is seen
              intro hgone
              have hk := hfate k
              rw [show (w.rise a).call? k = w.call? k from rfl, hgone, seenOf_append] at hk
              simpa [seenOf, Occurrence.call] using hk.of_none.2
            obtain ⟨c, hc⟩ := Option.ne_none_iff_exists'.1 hcall
            exact .inr ⟨before, k, results, time, c, a, response, rfl, hnone, hc, rfl⟩

/-- Only when a call begins there is a new number. -/
theorem Step.nextCall_eq {act : Action} (hs : Step A w act seen w')
    (hbegin : ∀ agents task prompts, act ≠ .begin agents task prompts) :
    w'.nextCall = w.nextCall := by
  cases hs with
  | begin agents task prompts => exact absurd rfl (hbegin agents task prompts)
  | turn _ ht => exact ht.steady.nextCall
  | @cancel c hc => exact (steady_cancelCall w c).nextCall
  | @abandon c hc => exact (steady_abandonCall w c).nextCall
  | pass _ _ _ => rfl

/-- There is no call of a number to come. -/
theorem Listed.call?_of_le (h : w.Listed) (hk : w.nextCall ≤ k) : w.call? k = none := by
  rw [call?_eq_none]
  intro hmem
  obtain ⟨c, hc, rfl⟩ := List.mem_map.1 hmem
  exact absurd (h.id_lt c hc) hk.not_gt

/-- A call that is not there does not come back, and nothing is seen of it. -/
theorem Step.over {act : Action} (hs : Step A w act seen w') (h : w.Sound) (hk : k < w.nextCall)
    (hgone : w.call? k = none) : w'.call? k = none ∧ seenOf k seen = [] := by
  rcases hs.fate h hk with ⟨_, _, c, hc, _⟩ | ⟨_, c, hc, _⟩ | hfate
  · rw [hgone] at hc
    cases hc
  · rw [hgone] at hc
    cases hc
  · rw [hgone] at hfate
    exact hfate.of_none

/-- A call that is there no more has returned or is abandoned. -/
theorem Step.gone_cases {act : Action} (hs : Step A w act seen w') (h : w.Sound)
    (hk : k < w.nextCall) (hgone : w'.call? k = none) : w.call? k = none ∨ act = .abandon k ∨
      ∃ results time, .returned k results time ∈ seen := by
  rcases hs.fate h hk with ⟨_, _, c, _, hc'⟩ | ⟨ha, _⟩ | hfate
  · rw [hgone] at hc'
    cases hc'
  · exact .inr (.inl ha)
  · rw [hgone] at hfate
    refine hfate.exists_returned.imp_right fun hreturned => .inr ?_
    obtain ⟨k', results, hmem⟩ := hreturned
    obtain ⟨hreturned, hid⟩ := mem_seenOf.1 hmem
    obtain rfl : k' = k := hid
    exact ⟨results, w.now, hreturned⟩

/-- **A call goes on** unless it returns or is abandoned. -/
theorem Step.call?_eq_none_iff {act : Action} (hs : Step A w act seen w') (h : w.Sound)
    (hbegin : ∀ agents task prompts, act ≠ .begin agents task prompts) : w'.call? k = none ↔
      w.call? k = none ∨ act = .abandon k ∨ ∃ results time, .returned k results time ∈ seen := by
  by_cases hk : k < w.nextCall
  case neg =>
    -- there is no call of the number before and after the step
    have hbefore := h.listed.call?_of_le (not_lt.1 hk)
    have hafter := (hs.sound h).listed.call?_of_le ((hs.nextCall_eq hbegin).trans_le (not_lt.1 hk))
    simp [hbefore, hafter]
  refine ⟨hs.gone_cases h hk, ?_⟩
  rintro (hgone | rfl | ⟨results, time, hmem⟩)
  · exact (hs.over h hk hgone).1
  · exact hs.abandoned.1
  · have hmem' : .returned k results time ∈ seenOf k seen := mem_seenOf.2 ⟨hmem, rfl⟩
    rcases hs.fate h hk with ⟨_, hseen, _⟩ | ⟨_, _, _, hgone, _⟩ | hfate
    · rw [hseen] at hmem'
      cases hmem'
    · exact hgone
    · rcases hfate.returns with hnone | ⟨hgone, _⟩
      · exact absurd hmem' (hnone k results time)
      · exact hgone

/-- No step takes a number back. -/
theorem Step.nextCall_le {act : Action} (hs : Step A w act seen w') :
    w.nextCall ≤ w'.nextCall := by
  cases hs with
  | begin agents task prompts => exact Nat.le_succ _
  | turn _ ht => exact ht.steady.nextCall.ge
  | @cancel c hc => exact (steady_cancelCall w c).nextCall.ge
  | @abandon c hc => exact (steady_abandonCall w c).nextCall.ge
  | pass _ _ _ => exact le_rfl

/-! ### The projection of a run -/

variable {trace : Trace}

/-- What holds of a sound world and its numbers holds at the end of a run. -/
theorem Run.sound (hrun : Run A w trace w') (hw : w.Sound) :
    w'.Sound ∧ w'.executor = w.executor ∧ w.nextCall ≤ w'.nextCall := by
  refine hrun.preserves (P := fun v => v.Sound ∧ v.executor = w.executor ∧
    w.nextCall ≤ v.nextCall) ?_ ⟨hw, rfl, le_rfl⟩
  rintro v act seen v' ⟨hv, hexec, hle⟩ hs
  exact ⟨hs.sound hv, hs.executor_eq.trans hexec, hle.trans hs.nextCall_le⟩

/-- **A call that is over stays over**, and nothing is seen of it any more. -/
theorem Run.over (hrun : Run A w trace w') (hw : w.Sound) (hk : k < w.nextCall)
    (hc : w.call? k = none) : w'.call? k = none ∧ seenOf k trace.seen = [] := by
  induction hrun with
  | refl => exact ⟨hc, rfl⟩
  | @step trace v v' act seen hrun hlaw hs ih =>
      obtain ⟨hnone, hseen⟩ := ih
      obtain ⟨hsound, _, hle⟩ := hrun.sound hw
      rw [Trace.seen_append, Trace.seen_singleton, seenOf_append, hseen]
      exact (step_of_step? hs hlaw).over hsound (Nat.lt_of_lt_of_le hk hle) hnone

end World

/-! ### Invariants of a call -/

/-- A property of a call and of what was seen of it that its moves keep at the times of `T`, and
that cancelling keeps if `C` holds. -/
structure CourseInvariant (A : BackendLaw) (x : Executor) (T : Nat → Prop) (C : Prop)
    (P : TaskCall → List Occurrence → Prop) : Prop where
  move : ∀ {now : Nat} {c d : TaskCall} {log seen : List Occurrence}, T now → P c log →
    TaskCall.Move A x now c seen d → P d (log ++ seen)
  cancel : ∀ {c : TaskCall} {log : List Occurrence}, C → P c log →
    P { c with isCancelled := true } log

/-- A call that is over has returned, if it has, the results of its last state. -/
def Over (T : Nat → Prop) (P : TaskCall → List Occurrence → Prop) (k : Nat)
    (log : List Occurrence) : Prop :=
  ∀ results time, .returned k results time ∈ log → ∃ c before, P c before ∧ c.live = [] ∧
    c.gathered = [] ∧ c.remaining = [] ∧ results = c.results ∧ T time ∧
      log = before ++ [.returned k results time]

/-- What an invariant says of a call that goes on or is over. -/
def Holds (T : Nat → Prop) (P : TaskCall → List Occurrence → Prop) (k : Nat)
    (o : Option TaskCall) (log : List Occurrence) : Prop :=
  match o with
  | some c => P c log ∧ c.id = k ∧ ∀ results time, .returned k results time ∉ log
  | none => Over T P k log

/-- A call that is seen to return is over. -/
theorem Holds.over {T : Nat → Prop} {P : TaskCall → List Occurrence → Prop} {k : Nat}
    {o : Option TaskCall} {log : List Occurrence} (h : Holds T P k o log) : Over T P k log := by
  cases o with
  | some c => exact fun results time hmem => absurd hmem (h.2.2 results time)
  | none => exact h

namespace CourseInvariant

variable {A : BackendLaw} {x : Executor} {T : Nat → Prop} {C : Prop}
  {P : TaskCall → List Occurrence → Prop}

theorem moves {now k : Nat} {c d : TaskCall} {log seen : List Occurrence}
    (hI : CourseInvariant A x T C P) (hT : T now) (hm : TaskCall.Moves A x now c seen d)
    (h : Holds T P k (some c) log) : Holds T P k (some d) (log ++ seen) := by
  induction hm with
  | refl => rwa [List.append_nil]
  | step _ hm ih =>
      obtain ⟨hP, hid, hnone⟩ := ih
      rw [← List.append_assoc]
      refine ⟨hI.move hT hP hm, hm.id_eq.trans hid, ?_⟩
      intro results time hmem
      rcases List.mem_append.1 hmem with hmem | hmem
      · exact hnone results time hmem
      · exact hm.not_returned k results time hmem

/-- What becomes of an invariant in a step in which the call goes its own way. -/
theorem fate {now k : Nat} {o o' : Option TaskCall} {log seen : List Occurrence}
    (hI : CourseInvariant A x T C P) (hT : o ≠ none → T now) (hf : Fate A x now o seen o')
    (h : Holds T P k o log) : Holds T P k o' (log ++ seen) := by
  cases hf with
  | gone => simpa using h
  | on hm => exact hI.moves (hT (by simp)) hm h
  | @returned c d later hm hlive hgathered hrem =>
      have htime := hT (by simp)
      obtain ⟨hP, hid, hnone⟩ := hI.moves htime hm h
      rw [← List.append_assoc]
      intro results time hmem
      rcases List.mem_append.1 hmem with hmem | hmem
      · exact absurd hmem (hnone results time)
      · obtain ⟨_, rfl, rfl⟩ := Occurrence.returned.inj (List.mem_singleton.1 hmem)
        exact ⟨d, log ++ later, hP, hlive, hgathered, hrem, rfl, htime, by rw [hid]⟩

/-- **An invariant of the moves holds along every run**, and when the call has returned it holds of
its last state. -/
theorem run {w w' : World} {k : Nat} {c : TaskCall} {trace : Trace}
    (hI : CourseInvariant A x T C P) (hrun : World.Run A w trace w') (hw : w.Sound)
    (hx : w.executor = x) (hk : k < w.nextCall) (hc : w.call? k = some c) (hP : P c [])
    (hT : ∀ trace v, World.Run A w trace v → v.call? k ≠ none → T v.now)
    (hC : .cancel k ∈ trace.map Prod.fst → C) :
    Holds T P k (w'.call? k) (seenOf k trace.seen) := by
  suffices h : w'.Sound ∧ w'.executor = x ∧ k < w'.nextCall ∧
      Holds T P k (w'.call? k) (seenOf k trace.seen) from h.2.2.2
  induction hrun with
  | refl =>
      refine ⟨hw, hx, hk, ?_⟩
      rw [hc]
      exact ⟨hP, World.id_of_call? hc, by simp⟩
  | @step trace v v' act seen hrun hlaw hs ih =>
      obtain ⟨hsound, hexec, hlt, hholds⟩ := ih fun hmem => hC (by simp [hmem])
      have hstep := World.step_of_step? hs hlaw
      refine ⟨hstep.sound hsound, hstep.executor_eq.trans hexec,
        Nat.lt_of_lt_of_le hlt hstep.nextCall_le, ?_⟩
      simp only [Trace.seen_append, Trace.seen_singleton, seenOf_append]
      rcases hstep.fate hsound hlt with ⟨rfl, hseen, d, hd, hd'⟩ | ⟨rfl, d, hd, hd', hseen⟩ | hfate
      · rw [hd] at hholds
        obtain ⟨hP, hid, hnone⟩ := hholds
        rw [hd', hseen, List.append_nil]
        exact ⟨hI.cancel (hC (by simp)) hP, hid, hnone⟩
      · rw [hd] at hholds
        rw [hd', hseen]
        -- a call that is abandoned does not return
        intro results time hmem
        rcases List.mem_append.1 hmem with hmem | hmem
        · exact absurd hmem (hholds.2.2 results time)
        · obtain ⟨i, _, hi⟩ := List.mem_flatMap.1 hmem
          cases eq_of_mem_endedIf hi
      · rw [hexec] at hfate
        exact hI.fate (hT _ v hrun) hfate hholds

end CourseInvariant

end AgentSwarm
