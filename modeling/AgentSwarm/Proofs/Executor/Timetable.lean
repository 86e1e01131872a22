/-
**The timetable of a call.**

A call that never waits for a permit or a quota goes by a timetable: a batch is dispatched, all its
requests are sent at once, it is over when the slowest of them has ended, and after a pause follows
the next batch.  The timetable is computed from the latencies of the backend alone.  A call is on pace
when its state at a time, and what was seen of it so far, are those of the timetable.

An invocation that is not at the backend is on pace only at the time at which its batch was
dispatched, and one that is at the backend only until its request has had its time.  So the clock
cannot leave a call on pace behind; that it does not is the business of the world.

Main definitions:

* `AgentSwarm.Brief.asked` — the requests of a batch;
* `AgentSwarm.Pace`, `AgentSwarm.Pace.dispatchAt`, `AgentSwarm.Pace.endAt` — **the timetable**;
* `AgentSwarm.Pace.Past`, `AgentSwarm.Pace.CallLog` — what is seen of batches that are over, and of a
  call that is;
* `AgentSwarm.Pace.OnPace` — the invariant.

Main results:

* `AgentSwarm.Pace.overAt_eq` — when a call is over;
* `AgentSwarm.Pace.OnPace.send`, `AgentSwarm.Pace.OnPace.settle`, `AgentSwarm.Pace.OnPace.report`,
  `AgentSwarm.Pace.OnPace.dispatch`, `AgentSwarm.Pace.OnPace.pass` — **what keeps a call on pace**;
* `AgentSwarm.Pace.OnPace.begins` — what was seen of a call on pace is how the log of a call begins.
-/

import AgentSwarm.Proofs.Executor.Accounts
import Mathlib.Data.List.MinMax

set_option relaxedAutoImplicit false
set_option autoImplicit false

namespace AgentSwarm

open World (requestOf endedIf collect openBatch batchAgents prepare)

/-! ### Requests -/

namespace Brief

/-- The requests for the agents of a batch that are active and have a prompt, with their places. -/
def asked (b : Brief) (batch : List Nat) : List (Nat × Request) :=
  batch.filterMap fun place =>
    (b.agents[place]?).bind fun agent =>
      if agent.isActive then (b.prompts agent b.task).map fun prompt => (place, b.request agent prompt)
      else none

/-- What is seen of the requests of a batch that are sent at a time: each of them, and its end. -/
def exchange (b : Brief) (t : Nat) (batch : List Nat) : List Occurrence :=
  (b.asked batch).flatMap fun e => [.sent b.id e.2 t, .ended b.id e.2.agentId]

/-- What is still to be seen of an invocation. -/
def outstanding (b : Brief) (t : Nat) (i : Invocation) : List Occurrence :=
  if i.stage.isCalling then [.ended b.id i.agent.id]
  else [.sent b.id (b.request i.agent i.prompt) t, .ended b.id i.agent.id]

variable {b : Brief} {i : Invocation} {batch : List Nat}

/-- An invocation stands for the request of its agent. -/
theorem mem_asked (h : Prepared b i) (hb : i.place ∈ batch) :
    (i.place, b.request i.agent i.prompt) ∈ b.asked batch := by
  refine List.mem_filterMap.2 ⟨i.place, hb, ?_⟩
  simp [h.place, h.active, h.prompt]

end Brief

/-- **The invocations of a batch stand for its requests.** -/
theorem asked_openBatch (c : TaskCall) (now serial : Nat) (batch : List Nat) :
    (openBatch c now serial (batchAgents c batch)).2.map
      (fun i => (i.place, c.brief.request i.agent i.prompt)) = c.brief.asked batch := by
  induction batch generalizing serial with
  | nil => rfl
  | cons place rest ih =>
      simp only [batchAgents, Brief.asked, List.filterMap_cons] at ih ⊢
      cases hagent : c.agents[place]? with
      | none => simpa [TaskCall.brief, hagent] using ih serial
      | some agent =>
          have hbrief : c.brief.agents[place]? = some agent := hagent
          simp only [hbrief, Option.map_some, Option.bind_some, openBatch]
          cases hactive : agent.isActive with
          | false => simpa [prepare, hactive] using ih serial
          | true =>
              have hprompts : c.brief.prompts agent c.brief.task = c.prompts agent c.task := rfl
              cases hprompt : c.prompts agent c.task with
              | none => simpa [prepare, hactive, hprompts, hprompt] using ih serial
              | some prompt => simpa [prepare, hactive, hprompts, hprompt] using ih (serial + 1)

/-! ### The timetable -/

/-- What decides about the times of a call: its batches, when it begins, the pause between batches,
the most time for a request, and how long the backend takes for the agent at a place. -/
structure Pace where
  brief : Brief
  batches : List (List Nat)
  start : Nat
  delay : Nat
  limit : Nat
  latency : Nat → Nat

namespace Pace

/-- How long the request for a place takes. -/
def cost (p : Pace) (place : Nat) : Nat := min (p.latency place) p.limit

/-- How long a batch takes: as long as the slowest of its requests. -/
def span (p : Pace) (batch : List Nat) : Nat :=
  ((p.brief.asked batch).map fun e => p.cost e.1).foldr max 0

/-- **When a batch is dispatched**: the first one at the start, each other one a pause after the end
of the one before. -/
def dispatchAt (p : Pace) : Nat → Nat
  | 0 => p.start
  | n + 1 => p.dispatchAt n + p.span (p.batches.getD n []) + p.delay

/-- **When a batch ends**, which is when the slowest of its requests has ended. -/
def endAt (p : Pace) (n : Nat) : Nat := p.dispatchAt n + p.span (p.batches.getD n [])

/-- When the first `n` batches are over. -/
def overAt (p : Pace) : Nat → Nat
  | 0 => p.start
  | n + 1 => p.endAt n

/-- What is seen of a batch that is over: that it is dispatched, its requests and their ends in some
order, and results. -/
inductive BatchLog (p : Pace) (n : Nat) (batch : List Nat) : List Occurrence → Prop
  | intro {seen : List Occurrence} (results : List (AgentResult Float)) :
      seen.Perm (p.brief.exchange (p.dispatchAt n) batch) →
      BatchLog p n batch (.dispatched p.brief.id n (p.brief.idsAt batch) (p.dispatchAt n) ::
        seen ++ results.map (.reported p.brief.id))

/-- What is seen of the first batches, which are over. -/
inductive Past (p : Pace) : Nat → List Occurrence → Prop
  | none : Past p 0 []
  | batch {n : Nat} {batch : List Nat} {log seen : List Occurrence} : Past p n log →
      p.batches[n]? = some batch → p.BatchLog n batch seen → Past p (n + 1) (log ++ seen)

/-- **What is seen of a call that keeps to its timetable**: all its batches, and that it returns at
the end of the last one. -/
inductive CallLog (p : Pace) : List Occurrence → Prop
  | intro {log : List Occurrence} (results : List (String × AgentResult Float)) :
      p.Past p.batches.length log →
      CallLog p (log ++ [.returned p.brief.id results (p.overAt p.batches.length)])

variable {p : Pace} {n t now : Nat} {batch : List Nat} {log : List Occurrence}

theorem cost_le_span {e : Nat × Request} (h : e ∈ p.brief.asked batch) :
    p.cost e.1 ≤ p.span batch :=
  List.le_max_of_le (List.mem_map.2 ⟨e, h, rfl⟩) le_rfl

theorem span_le {bound : Nat} (h : ∀ e ∈ p.brief.asked batch, p.cost e.1 ≤ bound) :
    p.span batch ≤ bound := by
  refine List.max_le_of_forall_le _ _ fun cost hcost => ?_
  obtain ⟨e, he, rfl⟩ := List.mem_map.1 hcost
  exact h e he

theorem endAt_eq (h : p.batches[n]? = some batch) : p.endAt n = p.dispatchAt n + p.span batch := by
  simp [endAt, h]

/-- After the end of a batch there is a pause before the next one. -/
theorem dispatchAt_succ (p : Pace) (n : Nat) : p.dispatchAt (n + 1) = p.endAt n + p.delay := rfl

/-- **When the first batches are over**: they have taken their time, and there was a pause between
each two of them. -/
theorem overAt_eq (p : Pace) (h : n ≤ p.batches.length) :
    p.overAt n = p.start + ((p.batches.take n).map p.span).sum + (n - 1) * p.delay := by
  induction n with
  | zero => simp [overAt]
  | succ n ih =>
      have hbatch := List.getElem?_eq_getElem (l := p.batches) (i := n) h
      have hstep : p.dispatchAt n = p.overAt n + if n = 0 then 0 else p.delay := by
        cases n <;> rfl
      have hpauses : n * p.delay = (n - 1) * p.delay + if n = 0 then 0 else p.delay := by
        cases n with
        | zero => simp
        | succ n => simp [Nat.succ_mul]
      rw [overAt, endAt_eq hbatch, hstep, ih (Nat.le_of_succ_le h), List.take_succ_eq_append_getElem h,
        List.map_append, List.sum_append]
      simp only [List.map_cons, List.map_nil, List.sum_singleton, Nat.add_sub_cancel]
      omega

theorem Past.le_length (h : p.Past n log) : n ≤ p.batches.length := by
  cases h with
  | none => exact Nat.zero_le _
  | batch _ hbatch _ => exact (List.getElem?_eq_some_iff.1 hbatch).1

/-- To what is seen of the first batches, what is to be seen of the others may be added. -/
theorem Past.extend (h : p.Past n log) : ∃ rest, p.CallLog (log ++ rest) := by
  induction hleft : p.batches.length - n generalizing n log with
  | zero =>
      obtain rfl : n = p.batches.length := Nat.le_antisymm h.le_length (Nat.le_of_sub_eq_zero hleft)
      exact ⟨_, .intro [] h⟩
  | succ left ih =>
      have hlt : n < p.batches.length := by omega
      have hnext := h.batch (List.getElem?_eq_getElem hlt) (.intro [] (.refl _))
      obtain ⟨rest, hrest⟩ := ih hnext (by omega)
      exact ⟨_, by rwa [List.append_assoc] at hrest⟩

/-! ### Calls on pace -/

/-- How an invocation stands whose batch was dispatched at a time: it has lost no time, or it is at
the backend for as long as its request takes. -/
inductive InTime (p : Pace) (t now : Nat) (i : Invocation) : Prop
  | early : i.stage = .fresh ∨ i.stage = .admitted → now = t → InTime p t now i
  | calling {ending : Ending} : i.stage = .calling (t + p.cost i.place) ending →
      now ≤ t + p.cost i.place → InTime p t now i

/-- A call asks the agents of a batch that was dispatched at a time: those who are live are in time,
and the requests of the others have had their time. -/
structure Busy (p : Pace) (t : Nat) (batch : List Nat) (now : Nat) (c : TaskCall) : Prop where
  live : ∀ i ∈ c.live, Prepared p.brief i ∧ i.place ∈ batch ∧ p.InTime t now i
  done : ∀ e ∈ p.brief.asked batch, e.1 ∉ c.live.map (·.place) → t + p.cost e.1 ≤ now
  begun : t ≤ now
  within : now ≤ t + p.span batch

/-- Where a call stands at a time, and what was seen of it. -/
inductive Phase (p : Pace) (now : Nat) (c : TaskCall) (log : List Occurrence) : Prop
  /-- The batches that were dispatched are over. -/
  | between : p.Past c.dispatched log → c.live = [] → c.gathered = [] →
      (c.isPausing = false → now = p.overAt c.dispatched) →
      (c.isPausing = true → c.remaining ≠ [] ∧ now ≤ p.dispatchAt c.dispatched) → Phase p now c log
  /-- The agents of a batch are asked. -/
  | asking {n : Nat} {batch : List Nat} {past seen : List Occurrence} :
      p.batches[n]? = some batch → c.dispatched = n + 1 → c.isPausing = false → p.Past n past →
      log = past ++ .dispatched p.brief.id n (p.brief.idsAt batch) (p.dispatchAt n) :: seen →
      (seen ++ c.live.flatMap (p.brief.outstanding (p.dispatchAt n))).Perm
        (p.brief.exchange (p.dispatchAt n) batch) →
      p.Busy (p.dispatchAt n) batch now c → Phase p now c log

/-- **A call is on pace** at a time. -/
structure OnPace (p : Pace) (now : Nat) (c : TaskCall) (log : List Occurrence) : Prop where
  brief : c.brief = p.brief
  kept : c.isCancelled = false
  remaining : c.remaining = p.batches.drop c.dispatched
  phase : p.Phase now c log

namespace OnPace

variable {c : TaskCall} {i : Invocation}

theorem id_eq (h : p.OnPace now c log) : c.id = p.brief.id := congrArg Brief.id h.brief

/-- An invocation on pace is in time, and is one of the invocations of a batch. -/
theorem live (h : p.OnPace now c log) (hi : i ∈ c.live) : ∃ n batch, p.batches[n]? = some batch ∧
    p.Busy (p.dispatchAt n) batch now c ∧ i.place ∈ batch ∧ p.InTime (p.dispatchAt n) now i := by
  cases h.phase with
  | between _ hlive => simp [hlive] at hi
  | asking hbatch _ _ _ _ _ hbusy =>
      obtain ⟨_, hplace, hin⟩ := hbusy.live i hi
      exact ⟨_, _, hbatch, hbusy, hplace, hin⟩

/-- An invocation on pace waits neither for a permit nor for a quota. -/
theorem stage_eq (h : p.OnPace now c log) (hi : i ∈ c.live) :
    (i.stage = .fresh ∨ i.stage = .admitted) ∨
      ∃ endsAt ending, i.stage = .calling endsAt ending := by
  obtain ⟨_, _, _, _, _, hin⟩ := h.live hi
  cases hin with
  | early hstage => exact .inl hstage
  | calling hstage => exact .inr ⟨_, _, hstage⟩

/-- While invocations are live there is no pause. -/
theorem not_pausing (h : p.OnPace now c log) (hlive : c.live ≠ []) : c.isPausing = false := by
  cases h.phase with
  | between _ hnone => exact absurd hnone hlive
  | asking _ _ hp => exact hp

/-- When nobody is asked the batches that were dispatched are over, once their results are
reported. -/
theorem batches_over (h : p.OnPace now c log) (hlive : c.live = []) :
    p.Past c.dispatched (log ++ c.gathered.map (.reported p.brief.id)) ∧
      (c.isPausing = false → now = p.overAt c.dispatched) ∧
      (c.isPausing = true → c.remaining ≠ [] ∧ now ≤ p.dispatchAt c.dispatched) := by
  cases h.phase with
  | between hpast _ hgathered hover hpausing =>
      rw [hgathered, List.map_nil, List.append_nil]
      exact ⟨hpast, hover, hpausing⟩
  | @asking n batch past seen hbatch hd hp hpast hlog hperm hbusy =>
      rw [hlive, List.flatMap_nil, List.append_nil] at hperm
      rw [hd, hp]
      refine ⟨?_, fun _ => ?_, by simp⟩
      · have hall := hpast.batch hbatch (.intro c.gathered hperm)
        rwa [hlog, List.append_assoc]
      · -- all requests have had their time, and the slowest not more
        have hspan : p.span batch ≤ now - p.dispatchAt n := span_le fun e he => by
          have := hbusy.done e he (by simp [hlive])
          omega
        have hbegun := hbusy.begun
        have hwithin := hbusy.within
        rw [overAt, endAt_eq hbatch]
        omega

/-- The invocations of a call with one of them put first. -/
theorem perm_live (hn : (c.live.map (·.place)).Nodup) (hi : c.invocation? i.place = some i) :
    c.live.Perm (i :: (c.without i.place).live) :=
  perm_cons_filter_ne hn (TaskCall.mem_live_of_invocation? hi)

/-- The invocations of a call one of which is changed. -/
theorem perm_live_adjust {f : Invocation → Invocation} (hn : (c.live.map (·.place)).Nodup)
    (hi : c.invocation? i.place = some i) :
    (c.adjust i.place f).live.Perm (f i :: (c.without i.place).live) := by
  have hperm := (perm_live hn hi).map fun j => if j.place == i.place then f j else j
  have hothers : (c.without i.place).live.map (fun j => if j.place == i.place then f j else j) =
      (c.without i.place).live := by
    conv_rhs => rw [← List.map_id (c.without i.place).live]
    refine List.map_congr_left fun j hj => ?_
    have hne := (TaskCall.mem_live_without.1 hj).2
    simp [hne]
  rw [List.map_cons, hothers, beq_self_eq_true, if_pos rfl] at hperm
  exact hperm

/-- **An invocation may change at a time**, when it asks the same and is in time still, and what has
become of its request is seen. -/
theorem adjust {f : Invocation → Invocation} {more : List Occurrence} (h : p.OnPace now c log)
    (hn : (c.live.map (·.place)).Nodup) (hi : c.invocation? i.place = some i)
    (hplace : ∀ j, (f j).place = j.place) (hagent : (f i).agent = i.agent)
    (hprompt : (f i).prompt = i.prompt)
    (hin : ∀ t, p.InTime t now i → p.InTime t now (f i) ∧
      more ++ p.brief.outstanding t (f i) = p.brief.outstanding t i) :
    p.OnPace now (c.adjust i.place f) (log ++ more) := by
  have hmem := TaskCall.mem_live_of_invocation? hi
  refine ⟨h.brief, h.kept, h.remaining, ?_⟩
  cases h.phase with
  | between _ hlive => simp [hlive] at hmem
  | @asking n batch past seen hbatch hd hp hpast hlog hperm hbusy =>
      obtain ⟨hprepared, hin_batch, hold⟩ := hbusy.live i hmem
      obtain ⟨hnew, hseen⟩ := hin _ hold
      have hlog' : log ++ more = past ++
          .dispatched p.brief.id n (p.brief.idsAt batch) (p.dispatchAt n) :: (seen ++ more) := by
        rw [hlog, List.append_assoc, List.cons_append]
      refine .asking hbatch hd hp hpast hlog' ?_ ⟨?_, ?_, hbusy.begun, hbusy.within⟩
      · -- what is seen of the invocation is no longer outstanding
        have hbefore := (perm_live hn hi).flatMap_right (p.brief.outstanding (p.dispatchAt n))
        have hafter := (perm_live_adjust (f := f) hn hi).flatMap_right
          (p.brief.outstanding (p.dispatchAt n))
        rw [List.flatMap_cons, ← hseen, List.append_assoc] at hbefore
        rw [List.flatMap_cons] at hafter
        rw [List.append_assoc]
        exact ((hafter.append_left more).trans hbefore.symm).append_left seen |>.trans hperm
      · intro j hj
        rcases (TaskCall.mem_live_adjust hn hi).1 hj with ⟨hj, _⟩ | rfl
        · exact hbusy.live j hj
        · refine ⟨⟨?_, by rw [hagent]; exact hprepared.active,
            by rw [hagent, hprompt]; exact hprepared.prompt⟩, by rw [hplace]; exact hin_batch, hnew⟩
          rw [hplace, hagent]
          exact hprepared.place
      · rw [TaskCall.map_live_adjust hplace]
        exact hbusy.done

/-- An invocation sends its request. -/
theorem send (ending : Ending) (h : p.OnPace now c log) (hn : (c.live.map (·.place)).Nodup)
    (hi : c.invocation? i.place = some i) (hs : i.stage.isCalling = false) :
    p.OnPace now (c.setStage i.place (.calling (now + p.cost i.place) ending))
      (log ++ [.sent c.id (requestOf c i) now]) := by
  have hrequest : requestOf c i = p.brief.request i.agent i.prompt := by
    rw [← h.brief]
    rfl
  refine h.adjust (f := fun j => { j with stage := .calling (now + p.cost i.place) ending }) hn hi
    (fun _ => rfl) rfl rfl fun t hin => ?_
  cases hin with
  | early _ ht =>
      subst ht
      refine ⟨.calling rfl (Nat.le_add_right _ _), ?_⟩
      rw [Brief.outstanding, Brief.outstanding, hs, h.id_eq, hrequest]
      rfl
  | calling hcalling =>
      rw [hcalling] at hs
      cases hs

/-- An invocation ends when its request has had its time. -/
theorem settle {endsAt : Nat} {ending : Ending} (h : p.OnPace now c log)
    (hn : (c.live.map (·.place)).Nodup) (hi : c.invocation? i.place = some i)
    (hs : i.stage = .calling endsAt ending) (hdue : endsAt ≤ now) (r : AgentResult Float) :
    p.OnPace now (c.settle i r) (log ++ endedIf c.id i) := by
  have hmem := TaskCall.mem_live_of_invocation? hi
  have hended : endedIf c.id i = [.ended p.brief.id i.agent.id] := by
    rw [endedIf, hs, h.id_eq]
    rfl
  refine ⟨h.brief, h.kept, h.remaining, ?_⟩
  cases h.phase with
  | between _ hlive => simp [hlive] at hmem
  | @asking n batch past seen hbatch hd hp hpast hlog hperm hbusy =>
      have hlog' : log ++ endedIf c.id i = past ++
          .dispatched p.brief.id n (p.brief.idsAt batch) (p.dispatchAt n) :: (seen ++ endedIf c.id i) := by
        rw [hlog, List.append_assoc, List.cons_append]
      refine .asking hbatch hd hp hpast hlog' ?_
        ⟨fun j hj => hbusy.live j (TaskCall.mem_live_without.1 hj).1, ?_, hbusy.begun, hbusy.within⟩
      · have hbefore := (perm_live hn hi).flatMap_right (p.brief.outstanding (p.dispatchAt n))
        have hlast : p.brief.outstanding (p.dispatchAt n) i = endedIf c.id i := by
          rw [hended, Brief.outstanding, hs]
          rfl
        rw [List.flatMap_cons, hlast] at hbefore
        rw [List.append_assoc]
        exact (hbefore.symm.append_left seen).trans hperm
      · intro e he hout
        by_cases hplace : e.1 = i.place
        · -- the request that ends has had its time
          cases (hbusy.live i hmem).2.2 with
          | early hstage =>
              rw [hs] at hstage
              rcases hstage with hstage | hstage <;> cases hstage
          | calling hcalling =>
              obtain ⟨rfl, _⟩ := Stage.calling.inj (hs.symm.trans hcalling)
              rwa [hplace]
        · refine hbusy.done e he fun hin => hout ?_
          rw [show (c.settle i r).live = (c.without i.place).live from rfl,
            TaskCall.map_place_without]
          exact List.mem_filter.2 ⟨hin, by simpa using hplace⟩

/-- The results of a batch are reported when it is over. -/
theorem report (h : p.OnPace now c log) (hlive : c.live = []) :
    p.OnPace now (collect c) (log ++ c.gathered.map (.reported c.id)) := by
  obtain ⟨hpast, hover, hpausing⟩ := h.batches_over hlive
  rw [h.id_eq]
  exact ⟨h.brief, h.kept, h.remaining, .between hpast hlive rfl hover hpausing⟩

/-- The pause before the next batch begins. -/
theorem pause (h : p.OnPace now c log) (hlive : c.live = []) (hgathered : c.gathered = [])
    (hrem : c.remaining ≠ []) (hp : c.isPausing = false) (hd : 0 < c.dispatched) :
    p.OnPace now { c with isPausing := true } log ∧ now + p.delay = p.dispatchAt c.dispatched := by
  obtain ⟨hpast, hover, _⟩ := h.batches_over hlive
  rw [hgathered, List.map_nil, List.append_nil] at hpast
  obtain ⟨n, hn⟩ := Nat.exists_eq_succ_of_ne_zero (Nat.pos_iff_ne_zero.1 hd)
  have hdispatch : now + p.delay = p.dispatchAt c.dispatched := by
    rw [hover hp, hn]
    rfl
  refine ⟨⟨h.brief, h.kept, h.remaining, .between hpast hlive hgathered (by simp) fun _ => ?_⟩,
    hdispatch⟩
  exact ⟨hrem, hdispatch ▸ Nat.le_add_right _ _⟩

/-- **The next batch is dispatched** at its time. -/
theorem dispatch {rest : List (List Nat)} (serial : Nat) (h : p.OnPace now c log)
    (hlive : c.live = []) (hgathered : c.gathered = []) (hrem : c.remaining = batch :: rest)
    (hnow : now = p.dispatchAt c.dispatched) :
    p.OnPace now (c.openNext now serial batch rest)
      (log ++ [.dispatched c.id c.dispatched ((batchAgents c batch).map fun m => m.2.id) now]) := by
  obtain ⟨hpast, _, _⟩ := h.batches_over hlive
  rw [hgathered, List.map_nil, List.append_nil] at hpast
  have hdrop := h.remaining
  rw [hrem] at hdrop
  have hbatch : p.batches[c.dispatched]? = some batch := by
    have hhead := congrArg (·[0]?) hdrop
    simpa using hhead.symm
  have hids : (batchAgents c batch).map (fun m => m.2.id) = p.brief.idsAt batch := by
    rw [← h.brief]
    exact (c.idsAt_brief batch).symm
  have hasked := asked_openBatch c now serial batch
  rw [h.brief] at hasked
  obtain ⟨hfresh, hplaces⟩ := c.live_openNext now serial batch rest
  have hlog : log ++ [.dispatched c.id c.dispatched ((batchAgents c batch).map fun m => m.2.id) now] =
      log ++ .dispatched p.brief.id c.dispatched (p.brief.idsAt batch) (p.dispatchAt c.dispatched) ::
        [] := by
    rw [h.id_eq, hids, hnow]
  refine ⟨h.brief, h.kept, ?_, .asking hbatch rfl rfl hpast hlog ?_ ⟨?_, ?_, hnow.ge, ?_⟩⟩
  · rw [show (c.openNext now serial batch rest).remaining = rest from rfl,
      show (c.openNext now serial batch rest).dispatched = c.dispatched + 1 from rfl,
      ← List.drop_drop, ← hdrop]
    rfl
  · -- nothing has been seen of the requests yet
    refine List.Perm.of_eq ?_
    rw [List.nil_append, Brief.exchange, ← hasked, List.flatMap_map]
    refine List.flatMap_congr fun i hi => ?_
    rw [Brief.outstanding, hfresh i hi]
    rfl
  · intro i hi
    have hprepared := prepared_of_openBatch (fun _ hm => mem_batchAgents hm) i hi
    rw [h.brief] at hprepared
    refine ⟨hprepared, ?_, .early (.inl (hfresh i hi)) hnow⟩
    exact hplaces.subset (List.mem_map.2 ⟨i, hi, rfl⟩)
  · intro e he hout
    -- no request has ended yet
    rw [← hasked] at he
    obtain ⟨i, hi, rfl⟩ := List.mem_map.1 he
    exact absurd (List.mem_map.2 ⟨i, hi, rfl⟩) hout
  · rw [← hnow]
    exact Nat.le_add_right _ _

/-- **The clock goes on**: it stops for everyone who is at the backend, and for a pause. -/
theorem pass {time : Nat} (h : p.OnPace now c log) (hle : now ≤ time)
    (hwaits : ∀ i ∈ c.live, ∃ endsAt ending, i.stage = .calling endsAt ending ∧ time ≤ endsAt)
    (hpauses : c.live = [] → c.isPausing = true ∧ time ≤ p.dispatchAt c.dispatched) :
    p.OnPace time c log := by
  refine ⟨h.brief, h.kept, h.remaining, ?_⟩
  by_cases hlive : c.live = []
  · obtain ⟨hp, htime⟩ := hpauses hlive
    cases h.phase with
    | between hpast _ hgathered _ hpausing =>
        exact .between hpast hlive hgathered (by simp [hp]) fun hp => ⟨(hpausing hp).1, htime⟩
    | asking _ _ hnot =>
        rw [hnot] at hp
        cases hp
  · cases h.phase with
    | between _ hnone => exact absurd hnone hlive
    | @asking n batch past seen hbatch hd hp hpast hlog hperm hbusy =>
        have hin : ∀ i ∈ c.live, p.InTime (p.dispatchAt n) time i ∧
            time ≤ p.dispatchAt n + p.cost i.place := by
          intro i hi
          obtain ⟨endsAt, ending, hs, htime⟩ := hwaits i hi
          cases (hbusy.live i hi).2.2 with
          | early hstage =>
              rw [hs] at hstage
              rcases hstage with hstage | hstage <;> cases hstage
          | calling hcalling =>
              obtain ⟨rfl, rfl⟩ := Stage.calling.inj (hs.symm.trans hcalling)
              exact ⟨.calling hcalling htime, htime⟩
        refine .asking hbatch hd hp hpast hlog hperm ⟨?_, ?_, hbusy.begun.trans hle, ?_⟩
        · intro i hi
          exact ⟨(hbusy.live i hi).1, (hbusy.live i hi).2.1, (hin i hi).1⟩
        · intro e he hout
          exact (hbusy.done e he hout).trans hle
        · obtain ⟨i, hi⟩ := List.exists_mem_of_ne_nil _ hlive
          obtain ⟨hprepared, hplace, _⟩ := hbusy.live i hi
          have hcost : p.cost i.place ≤ p.span batch := cost_le_span (Brief.mem_asked hprepared hplace)
          have htime := (hin i hi).2
          omega

/-- What is seen of a call on pace that has no batch left is, with its return, all there is. -/
theorem leave (h : p.OnPace now c log) (hlive : c.live = []) (hgathered : c.gathered = [])
    (hrem : c.remaining = []) (results : List (String × AgentResult Float)) :
    p.CallLog (log ++ [.returned c.id results now]) := by
  obtain ⟨hpast, hover, hpausing⟩ := h.batches_over hlive
  rw [hgathered, List.map_nil, List.append_nil] at hpast
  have hall : c.dispatched = p.batches.length := by
    have hle := hpast.le_length
    have hdrop := h.remaining
    rw [hrem] at hdrop
    have := List.drop_eq_nil_iff.1 hdrop.symm
    omega
  have hnot : c.isPausing = false := by
    by_contra hp
    exact (hpausing (by simpa using hp)).1 hrem
  rw [h.id_eq, hover hnot, hall]
  exact .intro results (hall ▸ hpast)

/-- **What was seen of a call on pace is how the log of a call begins.** -/
theorem begins (h : p.OnPace now c log) : ∃ rest, p.CallLog (log ++ rest) := by
  cases h.phase with
  | between hpast => exact hpast.extend
  | @asking n batch past seen hbatch _ _ hpast hlog hperm _ =>
      obtain ⟨rest, hrest⟩ := (hpast.batch hbatch (.intro [] hperm)).extend
      refine ⟨c.live.flatMap (p.brief.outstanding (p.dispatchAt n)) ++ rest, ?_⟩
      rw [hlog]
      simpa using hrest

end OnPace

end Pace

end AgentSwarm
