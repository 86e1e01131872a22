/-
**What a publication leaves on a bus.**

Events that are published one after another are all counted, and the last of them are kept.  Whoever
subscribed before and then looks once for each of them is told those that concern it, in their order,
as long as the bus has room for all of them; when there are more, `AgentSwarm.EventBus.accounts` says
how many are lost.

Main definitions:

* `AgentSwarm.EventBus.Carries` — what a bus keeps, and what receivers are told, when some events
  were published on it.

Main results:

* `AgentSwarm.EventBus.KeepsLast.told_looks` — **a receiver is told what it has not read**;
* `AgentSwarm.EventBus.carries_publishAll` — what events leave on a bus.
-/

import AgentSwarm.Proofs.EventBus.Accounts

set_option relaxedAutoImplicit false
set_option autoImplicit false

namespace AgentSwarm.EventBus

/-! ### Events one after another -/

@[simp] theorem publishAll_nil (b : EventBus) : b.publishAll [] = b := rfl

@[simp] theorem publishAll_singleton (b : EventBus) (e : Event) :
    b.publishAll [e] = b.publish e := rfl

@[simp] theorem publishAll_cons (b : EventBus) (e : Event) (events : List Event) :
    b.publishAll (e :: events) = (b.publish e).publishAll events := rfl

theorem publishAll_append (b : EventBus) (events more : List Event) :
    b.publishAll (events ++ more) = (b.publishAll events).publishAll more :=
  List.foldl_append ..

theorem published_publishAll (b : EventBus) (events : List Event) :
    (b.publishAll events).published = b.published + events.length := by
  induction events generalizing b with
  | nil => rfl
  | cons e rest ih =>
      rw [publishAll_cons, ih, published_publish, List.length_cons]
      omega

theorem capacity_publishAll (b : EventBus) (events : List Event) :
    (b.publishAll events).capacity = b.capacity := by
  induction events generalizing b with
  | nil => rfl
  | cons e rest ih => rw [publishAll_cons, ih, capacity_publish]

namespace KeepsLast

variable {bus : EventBus} {history : List Event}

theorem publishAll (h : bus.KeepsLast history) (events : List Event) :
    (bus.publishAll events).KeepsLast (history ++ events) := by
  induction events generalizing bus history with
  | nil => rwa [List.append_nil]
  | cons e rest ih =>
      rw [publishAll_cons, List.append_cons]
      exact ih (h.publish e)

/-! ### What is told of them -/

/-- A reader that has lost nothing meets the next event. -/
theorem exists_look_eq (h : bus.KeepsLast history) {r : Reader} {e : Event} {rest : List Event}
    (hunread : history.drop r.receiver.next = e :: rest)
    (hroom : (e :: rest).length ≤ bus.capacity) :
    ∃ next, r.look bus = ⟨⟨r.receiver.task, next⟩, r.since,
      r.told ++ [.ok e].filter (concerns r.receiver.task)⟩ ∧ history.drop next = rest := by
  obtain ⟨reading, receiver, hreading⟩ :
      ∃ reading receiver, r.receiver.receiveAny bus = (reading, receiver) := ⟨_, _, rfl⟩
  have hlength := congrArg List.length hunread
  rw [List.length_drop] at hlength
  have hnext : r.receiver.next ≤ history.length := by
    rw [List.length_cons] at hlength
    omega
  obtain ⟨hmeets, htask, -, -⟩ := h.meets hnext hreading
  have hkept := h.length_kept
  rw [hunread] at hmeets
  refine ⟨receiver.next, ?_⟩
  generalize hevents : e :: rest = events at hmeets hroom
  generalize hlater : history.drop receiver.next = later at hmeets ⊢
  cases hmeets with
  | event =>
      obtain ⟨rfl, rfl⟩ := List.cons.inj hevents
      rw [Reader.look_eq hreading, ← htask]
      exact ⟨rfl, rfl⟩
  | lagged hlost =>
      -- what is lost had no room beside what is kept
      have hpositive := List.length_pos_iff.2 hlost
      rw [hevents, List.length_append] at hlength
      rw [List.length_append] at hroom
      omega
  | idle => cases hevents

/-- **A receiver is told what it has not read** when it looks once for every event, if nothing is
lost. -/
theorem told_looks (h : bus.KeepsLast history) {r : Reader} {events : List Event}
    (hunread : history.drop r.receiver.next = events) (hroom : events.length ≤ bus.capacity) :
    ((Reader.look bus)^[events.length] r).told =
      r.told ++ (events.filter fun e => concerns r.receiver.task (.ok e)).map .ok := by
  induction events generalizing r with
  | nil => simp
  | cons e rest ih =>
      obtain ⟨next, hlook, hrest⟩ := h.exists_look_eq hunread hroom
      rw [List.length_cons, Function.iterate_succ_apply, hlook,
        ih hrest (Nat.le_of_succ_le hroom), List.append_assoc, List.filter_cons, List.filter_cons]
      congr 1
      split <;> rfl

end KeepsLast

/-! ### What events leave -/

/-- What a bus is after some events were published on another one: they are counted, the last of all
events are kept, and a receiver that subscribed before them and looks once for each is told those that
concern it. -/
structure Carries (b : EventBus) (events : List Event) (b' : EventBus) : Prop where
  published : b'.published = b.published + events.length
  capacity : b'.capacity = b.capacity
  kept : ∀ {history : List Event}, b.KeepsLast history → b'.KeepsLast (history ++ events)
  told : ∀ {history : List Event}, b.KeepsLast history → events.length ≤ b.capacity →
    ∀ task : Option String,
      ((Reader.look b')^[events.length] ⟨(b.subscribe task).2, b.published, []⟩).told =
        (events.filter fun e => concerns task (.ok e)).map .ok

theorem carries_publishAll (b : EventBus) (events : List Event) :
    b.Carries events (b.publishAll events) := by
  refine ⟨published_publishAll b events, capacity_publishAll b events, fun h => h.publishAll events,
    fun {history} h hroom task => ?_⟩
  have hunread : (history ++ events).drop b.published = events := by
    rw [h.published, List.drop_left]
  exact (h.publishAll events).told_looks
    (r := ⟨(b.subscribe task).2, b.published, []⟩) hunread
    (Nat.le_trans hroom (Nat.le_of_eq (capacity_publishAll b events).symm))

end AgentSwarm.EventBus
