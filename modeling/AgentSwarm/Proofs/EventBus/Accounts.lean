/-
**What receivers are told.**

Some publish on a bus while others read from it, in any order.  A receiver looks at the bus: it meets
the next event, or learns how many it has lost, or finds nothing.  What it is told can be replayed on
the events that were published since it subscribed: an event that it is told comes next, and so do as
many events as it is told that it has lost; what remains is still unread.  A receiver for one task
looks like any other and keeps to itself what belongs to other tasks, so it is told what another
receiver would be told that looks at the same moments, without the events of other tasks.

A receiver that waits looks again when there is something new, so nothing depends on how long it
waits; what one `receive` does is to look until there is something to tell.

Main definitions:

* `AgentSwarm.EventBus.Meets` — what a receiver meets when it looks;
* `AgentSwarm.EventBus.Replay` — events that are told, lost or still unread;
* `AgentSwarm.EventBus.Hub`, `AgentSwarm.EventBus.Move` — a bus with those who read from it, and what
  may happen there;
* `AgentSwarm.EventBus.Move.publications`, `AgentSwarm.EventBus.Move.subscriptions` — what some
  moves publish and who subscribes in them;
* `AgentSwarm.EventBus.Accounts` — what holds after some moves.

Main results:

* `AgentSwarm.EventBus.KeepsLast.meets` — what a receiver meets;
* `AgentSwarm.EventBus.Hub.Sound.move` — what every move keeps;
* `AgentSwarm.EventBus.Hub.history_after`, `AgentSwarm.EventBus.Hub.subscription_after` — the events
  and the readers are those of the moves;
* `AgentSwarm.EventBus.Reader.exists_looks` — to receive is to look some times;
* `AgentSwarm.EventBus.accounts` — **the accounts of all receivers, whatever happens**.
-/

import AgentSwarm.EventBus
import Mathlib.Data.List.Forall2
import Mathlib.Data.List.Induction
import Mathlib.Logic.Function.Iterate

set_option relaxedAutoImplicit false
set_option autoImplicit false

namespace AgentSwarm.EventBus

/-! ### Readings -/

/-- What a receiver is told: an event, or why there is none. -/
abbrev Reading := Except BusError Event

/-- What a receiver meets that looks at a bus with the events `kept`, and what it has still to read.
It has lost events when more are unread than are kept. -/
inductive Meets (isClosed : Bool) (kept : List Event) : List Event → Reading → List Event → Prop
  | event {e : Event} {rest : List Event} (h : (e :: rest) <:+ kept) :
      Meets isClosed kept (e :: rest) (.ok e) rest
  | lagged {lost : List Event} (h : lost ≠ []) :
      Meets isClosed kept (lost ++ kept) (.error (.lagged lost.length)) kept
  | idle : Meets isClosed kept [] (.error (if isClosed then .closed else .empty)) []

/-- Readings are replayed on events: which ones are read or lost, and which remain. -/
inductive Replay : List Event → List Reading → List Event → Prop
  | start (events : List Event) : Replay events [] events
  | event {e : Event} {events rest : List Event} {told : List Reading} :
      Replay events told rest → Replay (e :: events) (.ok e :: told) rest
  | lagged {lost events rest : List Event} {told : List Reading} (h : lost ≠ []) :
      Replay events told rest →
        Replay (lost ++ events) (.error (.lagged lost.length) :: told) rest
  | idle {events rest : List Event} {told : List Reading} {isClosed : Bool} :
      Replay events told rest →
        Replay events (.error (if isClosed then .closed else .empty) :: told) rest

/-- The events among some readings. -/
def delivered : List Reading → List Event
  | [] => []
  | .ok e :: told => e :: delivered told
  | .error _ :: told => delivered told

/-- How many events are lost by some readings. -/
def lostCount : List Reading → Nat
  | [] => 0
  | .error (.lagged lost) :: told => lost + lostCount told
  | _ :: told => lostCount told

/-- The readings that a receiver tells: all but the events of other tasks. -/
def concerns (task : Option String) : Reading → Bool
  | .ok e => task.isNone || e.taskId? = task
  | .error _ => true

/-- The events among the readings that concern a task are the events among them that do. -/
theorem delivered_filter (task : Option String) (told : List Reading) :
    delivered (told.filter (concerns task)) =
      (delivered told).filter fun e => concerns task (.ok e) := by
  induction told with
  | nil => rfl
  | cons reading told ih =>
      cases reading with
      | ok e =>
          rw [delivered, List.filter_cons, List.filter_cons]
          split
          next => rw [delivered, ih]
          next => exact ih
      | error e =>
          rw [List.filter_cons_of_pos rfl]
          exact ih

namespace Replay

variable {events mid rest : List Event} {told more : List Reading}

theorem trans (h : Replay events told mid) (hmore : Replay mid more rest) :
    Replay events (told ++ more) rest := by
  induction h with
  | start => exact hmore
  | event _ ih => exact .event (ih hmore)
  | lagged hlost _ ih => exact .lagged hlost (ih hmore)
  | idle _ ih => exact .idle (ih hmore)

/-- What is published later is unread. -/
theorem publish (h : Replay events told rest) (e : Event) :
    Replay (events ++ [e]) told (rest ++ [e]) := by
  induction h with
  | start => exact .start _
  | event _ ih => exact .event ih
  | lagged hlost _ ih =>
      rw [List.append_assoc]
      exact .lagged hlost ih
  | idle _ ih => exact .idle ih

/-- **The balance of a receiver**: delivered, lost and unread events are all there are. -/
theorem balance (h : Replay events told rest) :
    (delivered told).length + lostCount told + rest.length = events.length := by
  induction h with
  | start => simp [delivered, lostCount]
  | event _ ih =>
      simp only [delivered, lostCount, List.length_cons]
      omega
  | lagged _ _ ih =>
      simp only [delivered, lostCount, List.length_append]
      omega
  | @idle _ _ _ isClosed _ ih => cases isClosed <;> exact ih

/-- Events are delivered in the order in which they were published, and none of them twice. -/
theorem delivered_sublist (h : Replay events told rest) : (delivered told).Sublist events := by
  induction h with
  | start => exact List.nil_sublist _
  | event _ ih => exact ih.cons_cons _
  | lagged _ _ ih => exact ih.trans (List.sublist_append_right _ _)
  | idle _ ih => exact ih

end Replay

theorem Meets.replay {isClosed : Bool} {kept unread rest : List Event} {reading : Reading}
    (h : Meets isClosed kept unread reading rest) : Replay unread [reading] rest := by
  cases h with
  | event => exact .event (.start _)
  | lagged hlost => exact .lagged hlost (.start _)
  | idle => exact .idle (.start _)

/-- What a receiver meets does not depend on the task that it is for. -/
theorem receiveAny_congr {r r' p : EventReceiver} {bus : EventBus} {reading : Reading}
    (hnext : p.next = r.next) (h : r.receiveAny bus = (reading, r')) :
    r'.task = r.task ∧ p.receiveAny bus = (reading, ⟨p.task, r'.next⟩) := by
  obtain ⟨task, next⟩ := p
  obtain rfl : next = r.next := hnext
  simp only [EventReceiver.receiveAny] at h ⊢
  split at h
  next hlagged =>
      obtain ⟨rfl, rfl⟩ := Prod.mk.inj h
      rw [if_pos hlagged]
      exact ⟨rfl, rfl⟩
  next hroom =>
      rw [if_neg hroom]
      split at h <;> obtain ⟨rfl, rfl⟩ := Prod.mk.inj h <;> exact ⟨rfl, rfl⟩

/-! ### A bus and its readers -/

/-- A receiver with what it was told since it subscribed. -/
structure Reader where
  receiver : EventReceiver
  /-- How many events had been published when it subscribed. -/
  since : Nat
  told : List Reading

namespace Reader

/-- What the reader subscribed to, and after how many events. -/
def subscription (r : Reader) : Option String × Nat := (r.receiver.task, r.since)

/-- The reader looks once: what it meets it tells, unless it is an event of another task. -/
def look (bus : EventBus) (r : Reader) : Reader :=
  let (reading, receiver) := r.receiver.receiveAny bus
  { r with receiver, told := r.told ++ [reading].filter (concerns r.receiver.task) }

/-- The reader receives what comes next. -/
def receive (bus : EventBus) (r : Reader) : Reader :=
  let (reading, receiver) := r.receiver.receive bus
  { r with receiver, told := r.told ++ [reading] }

end Reader

/-- A bus with all events that were published on it, and with all who ever subscribed. -/
structure Hub where
  bus : EventBus
  history : List Event
  readers : List Reader

/-- What may happen at a bus. -/
inductive Move where
  | publish (e : Event)
  | subscribe (task : Option String)
  | look (i : Nat)
  /-- Somebody who subscribed is gone. -/
  | unsubscribe
  | close

namespace Move

/-- Whether a move is one of those who publish. -/
def isPublishing : Move → Bool
  | publish _ | close => true
  | subscribe _ | look _ | unsubscribe => false

/-- The move of one who subscribes to everything instead of a task. -/
def plain : Move → Move
  | publish e => publish e
  | subscribe _ => subscribe none
  | look i => look i
  | unsubscribe => unsubscribe
  | close => close

/-- The events that some moves publish, until the bus is closed. -/
def publications : List Move → List Event
  | [] | close :: _ => []
  | publish e :: moves => e :: publications moves
  | subscribe _ :: moves | look _ :: moves | unsubscribe :: moves => publications moves

/-- Those who subscribe in some moves until the bus is closed, each with the task that is asked for
and with the number of events that were published before, when `published` were at first. -/
def subscriptions (published : Nat) : List Move → List (Option String × Nat)
  | [] | close :: _ => []
  | publish _ :: moves => subscriptions (published + 1) moves
  | subscribe task :: moves => (task, published) :: subscriptions published moves
  | look _ :: moves | unsubscribe :: moves => subscriptions published moves

end Move

namespace Hub

/-- The hub after a move; nobody publishes or subscribes once the bus is closed. -/
def move (s : Hub) : Move → Hub
  | .publish e =>
    if s.bus.isClosed then s else { s with bus := s.bus.publish e, history := s.history ++ [e] }
  | .subscribe task =>
    if s.bus.isClosed then s else
      let (bus, receiver) := s.bus.subscribe task
      { s with bus, readers := s.readers ++ [⟨receiver, s.bus.published, []⟩] }
  | .look i => { s with readers := s.readers.modify i (Reader.look s.bus) }
  | .unsubscribe => { s with bus := s.bus.unsubscribe }
  | .close => { s with bus := s.bus.close }

/-- The hub after a reader has received what comes next. -/
def receive (s : Hub) (i : Nat) : Hub :=
  { s with readers := s.readers.modify i (Reader.receive s.bus) }

/-- The hub after some moves. -/
def after (c : Nat) (moves : List Move) : Hub := moves.foldl move ⟨ofCapacity c, [], []⟩

theorem after_concat (c : Nat) (moves : List Move) (m : Move) :
    after c (moves ++ [m]) = (after c moves).move m := by
  rw [after, List.foldl_concat]
  rfl

end Hub

/-- A bus has the room that it was asked for, and room for one event at least. -/
theorem le_powerOfTwoFrom (c : Nat) : max c 1 ≤ powerOfTwoFrom c := by
  rw [powerOfTwoFrom]
  split
  next => omega
  next h =>
      have := Nat.lt_log2_self (n := c - 1)
      show max c 1 ≤ 2 ^ ((c - 1).log2 + 1)
      omega

/-! ### What every move keeps -/

/-- A reader of a bus on which some events were published. -/
structure Reader.Sound (history : List Event) (r : Reader) : Prop where
  since_le : r.since ≤ r.receiver.next
  next_le : r.receiver.next ≤ history.length
  replay : r.receiver.task = none →
    Replay (history.drop r.since) r.told (history.drop r.receiver.next)

/-- A bus keeps the last of all events that were published on it, as many as it has room for. -/
structure KeepsLast (bus : EventBus) (history : List Event) : Prop where
  positive : 0 < bus.capacity
  published : bus.published = history.length
  kept : bus.kept = history.drop (history.length - bus.capacity)

/-- A bus and its readers are in order. -/
structure Hub.Sound (s : Hub) : Prop where
  bus : s.bus.KeepsLast s.history
  readers : ∀ r ∈ s.readers, r.Sound s.history

namespace Reader

variable {r : Reader} {receiver : EventReceiver} {reading : Reading} {bus : EventBus}

/-- A reader that looks tells what it meets, if that concerns it. -/
theorem look_eq (h : r.receiver.receiveAny bus = (reading, receiver)) :
    r.look bus = ⟨receiver, r.since, r.told ++ [reading].filter (concerns r.receiver.task)⟩ := by
  rw [look, h]

/-- Everything concerns a reader of all tasks. -/
theorem concerns_none (reading : Reading) : concerns none reading = true := by
  cases reading <;> rfl

/-- What is published later is unread. -/
theorem Sound.publish {history : List Event} (hr : r.Sound history) (e : Event) :
    r.Sound (history ++ [e]) := by
  have hlast := hr.next_le
  refine ⟨hr.since_le, by rw [List.length_append]; omega, fun hplain => ?_⟩
  rw [List.drop_append_of_le_length (Nat.le_trans hr.since_le hlast),
    List.drop_append_of_le_length hlast]
  exact (hr.replay hplain).publish e

end Reader

/-- Of the unread events the first are lost when there are more than are kept. -/
theorem exists_lost (history : List Event) (next capacity : Nat)
    (h : next + capacity ≤ history.length) :
    ∃ lost, lost.length = history.length - next - capacity ∧
      history.drop next = lost ++ history.drop (history.length - capacity) := by
  refine ⟨(history.drop next).take (history.length - next - capacity), ?_, ?_⟩
  · rw [List.length_take, List.length_drop]
    omega
  · rw [show history.length - capacity = next + (history.length - next - capacity) by omega,
      ← List.drop_drop, List.take_append_drop]

namespace KeepsLast

variable {bus : EventBus} {history : List Event} {reading : Reading}

/-- A bus on which nothing was published. -/
theorem ofCapacity (c : Nat) : (ofCapacity c).KeepsLast [] :=
  ⟨Nat.lt_of_lt_of_le (Nat.lt_of_lt_of_le Nat.one_pos (Nat.le_max_right c 1)) (le_powerOfTwoFrom c),
    rfl, List.drop_nil.symm⟩

theorem length_kept (h : bus.KeepsLast history) :
    bus.kept.length = min history.length bus.capacity := by
  rw [h.kept, List.length_drop]
  omega

/-- The events that a bus keeps when one more is published. -/
theorem publish (h : bus.KeepsLast history) (e : Event) :
    (bus.publish e).KeepsLast (history ++ [e]) := by
  have hpositive := h.positive
  have hlength := h.length_kept
  refine ⟨hpositive, ?_, ?_⟩
  · rw [published_publish, h.published, List.length_append, List.length_singleton]
  · rw [List.length_append, List.length_singleton, capacity_publish,
      List.drop_append_of_le_length (by omega), EventBus.publish]
    dsimp only
    congr 1
    split
    next hroom =>
        rw [h.kept]
        congr 1
        omega
    next hfull =>
        rw [h.kept, List.drop_drop]
        congr 1
        omega

/-- **What a receiver meets**: the first event that it has not read, if that is still kept. -/
theorem meets (h : bus.KeepsLast history) {r r' : EventReceiver} (hnext : r.next ≤ history.length)
    (hreading : r.receiveAny bus = (reading, r')) :
    Meets bus.isClosed bus.kept (history.drop r.next) reading (history.drop r'.next) ∧
      r'.task = r.task ∧ r.next ≤ r'.next ∧ r'.next ≤ history.length := by
  have hkept := h.kept
  simp only [EventReceiver.receiveAny, h.published] at hreading
  split at hreading
  next hlagged =>
      obtain ⟨rfl, rfl⟩ := Prod.mk.inj hreading
      obtain ⟨lost, hlost, hunread⟩ := exists_lost history r.next bus.capacity (by omega)
      rw [← hkept] at hunread
      refine ⟨?_, rfl, ?_, ?_⟩
      · rw [hunread, ← hkept, ← hlost]
        exact .lagged fun hnil => by simp [hnil] at hlost; omega
      · dsimp only
        omega
      · dsimp only
        omega
  next hroom =>
      have hlength := h.length_kept
      by_cases hunread : r.next = history.length
      · rw [hunread, Nat.sub_self, Nat.sub_zero, List.getElem?_eq_none (Nat.le_refl _)] at hreading
        obtain ⟨rfl, rfl⟩ := Prod.mk.inj hreading
        rw [hunread, List.drop_length]
        exact ⟨.idle, rfl, Nat.le_refl _, Nat.le_refl _⟩
      · have hlt : r.next < history.length := by omega
        have hfound : bus.kept[bus.kept.length - (history.length - r.next)]? =
            some history[r.next] := by
          rw [hlength, hkept, List.getElem?_drop, List.getElem?_eq_some_iff]
          refine ⟨by omega, ?_⟩
          congr 1
          omega
        rw [hfound] at hreading
        obtain ⟨rfl, rfl⟩ := Prod.mk.inj hreading
        refine ⟨?_, rfl, Nat.le_succ _, hlt⟩
        rw [List.drop_eq_getElem_cons hlt]
        refine .event ?_
        rw [← List.drop_eq_getElem_cons hlt, hkept]
        exact List.drop_suffix_drop_left _ (by omega)

end KeepsLast

namespace Hub

variable {s : Hub} {r : Reader} {reading : Reading} {c : Nat} {moves : List Move}

/-- To look keeps the accounts. -/
theorem Sound.look (h : s.Sound) (hr : r.Sound s.history) : (r.look s.bus).Sound s.history := by
  obtain ⟨reading, r', hreading⟩ : ∃ reading r', r.receiver.receiveAny s.bus = (reading, r') :=
    ⟨_, _, rfl⟩
  obtain ⟨hmeets, htask, hle, hlast⟩ := h.bus.meets hr.next_le hreading
  rw [Reader.look_eq hreading]
  refine ⟨Nat.le_trans hr.since_le hle, hlast, fun hplain => ?_⟩
  rw [htask] at hplain
  rw [hplain, List.filter_cons_of_pos (Reader.concerns_none reading), List.filter_nil]
  exact (hr.replay hplain).trans hmeets.replay

/-- **Every move keeps the accounts.** -/
theorem Sound.move (h : s.Sound) (m : Move) : (s.move m).Sound := by
  cases m with
  | publish e =>
      rw [Hub.move]
      split
      next => exact h
      next => exact ⟨h.bus.publish e, fun r hr => (h.readers r hr).publish e⟩
  | subscribe task =>
      rw [Hub.move]
      split
      next => exact h
      next =>
          refine ⟨⟨h.bus.positive, h.bus.published, h.bus.kept⟩, fun r hr => ?_⟩
          rcases List.mem_append.1 hr with hr | hr
          · exact h.readers r hr
          · obtain rfl := List.mem_singleton.1 hr
            exact ⟨Nat.le_refl _, Nat.le_of_eq h.bus.published, fun _ => .start _⟩
  | look i =>
      refine ⟨h.bus, fun r hr => ?_⟩
      obtain ⟨j, hj⟩ := List.mem_iff_getElem?.1 hr
      rw [show (s.move (.look i)).readers = s.readers.modify i (Reader.look s.bus) from rfl,
        List.getElem?_modify] at hj
      obtain ⟨old, hold, rfl⟩ := Option.map_eq_some_iff.1 hj
      have hsound := h.readers old (List.mem_of_getElem? hold)
      split
      next => exact h.look hsound
      next => exact hsound
  | unsubscribe | close =>
      exact ⟨⟨h.bus.positive, h.bus.published, h.bus.kept⟩, h.readers⟩

theorem sound_after (c : Nat) (moves : List Move) : (after c moves).Sound := by
  induction moves using List.reverseRecOn with
  | nil => exact ⟨.ofCapacity c, List.forall_mem_nil _⟩
  | append_singleton moves m ih =>
      rw [after_concat]
      exact ih.move m

theorem capacity_after (c : Nat) (moves : List Move) :
    (after c moves).bus.capacity = powerOfTwoFrom c := by
  induction moves using List.reverseRecOn with
  | nil => rfl
  | append_singleton moves m ih =>
      rw [after_concat, ← ih]
      cases m with
      | publish | subscribe =>
          rw [move]
          split <;> rfl
      | look | unsubscribe | close => rfl

/-! ### What the moves say -/

/-- What is published is what the moves publish. -/
theorem history_foldl (s : Hub) (moves : List Move) : (moves.foldl move s).history =
    s.history ++ if s.bus.isClosed then [] else Move.publications moves := by
  induction moves generalizing s with
  | nil => simp [Move.publications]
  | cons m moves ih =>
      rw [List.foldl_cons, ih]
      cases m with
      | publish e =>
          rw [move]
          split
          next hclosed => rfl
          next hopen => simp [publish, hopen, Move.publications]
      | subscribe task =>
          rw [move]
          split
          next hclosed => rfl
          next hopen => simp [subscribe, hopen, Move.publications]
      | look | unsubscribe => rfl
      | close => simp [move, close, Move.publications]

theorem history_after (c : Nat) (moves : List Move) :
    (after c moves).history = Move.publications moves :=
  history_foldl _ moves

/-- A reader that looks has subscribed to what it had subscribed to. -/
theorem subscription_look (r : Reader) (bus : EventBus) :
    (r.look bus).subscription = r.subscription := by
  obtain ⟨reading, receiver, hreading⟩ :
      ∃ reading receiver, r.receiver.receiveAny bus = (reading, receiver) := ⟨_, _, rfl⟩
  rw [Reader.look_eq hreading, Reader.subscription, (receiveAny_congr rfl hreading).1]
  rfl

/-- **The readers are those who subscribe in the moves**, in their order, with what they ask for and
when. -/
theorem subscription_foldl (s : Hub) (moves : List Move) :
    (moves.foldl move s).readers.map Reader.subscription = s.readers.map Reader.subscription ++
      if s.bus.isClosed then [] else Move.subscriptions s.bus.published moves := by
  induction moves generalizing s with
  | nil => simp [Move.subscriptions]
  | cons m moves ih =>
      rw [List.foldl_cons, ih]
      cases m with
      | publish e =>
          rw [move]
          split
          next hclosed => rfl
          next hopen => simp [publish, hopen, Move.subscriptions]
      | subscribe task =>
          rw [move]
          split
          next hclosed => rfl
          next hopen => simp [subscribe, hopen, Move.subscriptions, Reader.subscription]
      | look i =>
          have hsame : (s.readers.modify i (Reader.look s.bus)).map Reader.subscription =
              s.readers.map Reader.subscription := by
            refine List.ext_getElem? fun j => ?_
            rw [List.getElem?_map, List.getElem?_map, List.getElem?_modify]
            cases s.readers[j]? with
            | none => rfl
            | some r =>
                refine congrArg some ?_
                dsimp only
                split
                next => exact subscription_look r s.bus
                next => rfl
          exact congrArg (· ++ _) hsame
      | unsubscribe => rfl
      | close => simp [move, close, Move.subscriptions]

theorem subscription_after (c : Nat) (moves : List Move) :
    (after c moves).readers.map Reader.subscription = Move.subscriptions 0 moves :=
  subscription_foldl _ moves

/-! ### Who never lags -/

/-- A receiver lags only when more is unread than the bus has room for. -/
theorem lt_of_lagged {r r' : EventReceiver} {bus : EventBus} {lost : Nat}
    (h : r.receiveAny bus = (.error (.lagged lost), r')) :
    bus.capacity < bus.published - r.next := by
  simp only [EventReceiver.receiveAny] at h
  split at h
  next hlagged => exact hlagged
  next =>
      split at h
      · cases h
      · split at h <;> cases h

/-- Where a reader comes from: it was there, or it was there and has looked, or it has just
subscribed. -/
theorem reader_cases {m : Move} {i : Nat} (hr : (s.move m).readers[i]? = some r) :
    s.readers[i]? = some r ∨ (∃ old, s.readers[i]? = some old ∧ r = old.look s.bus) ∨
      r.told = [] := by
  cases m with
  | publish e =>
      rw [move] at hr
      split at hr <;> exact .inl hr
  | unsubscribe | close => exact .inl hr
  | subscribe task =>
      rw [move] at hr
      split at hr
      next => exact .inl hr
      next =>
          dsimp only at hr
          rw [List.getElem?_append] at hr
          split at hr
          next => exact .inl hr
          next =>
              obtain rfl := List.mem_singleton.1 (List.mem_of_getElem? hr)
              exact .inr (.inr rfl)
  | look j =>
      rw [move] at hr
      dsimp only at hr
      rw [List.getElem?_modify] at hr
      obtain ⟨old, hold, rfl⟩ := Option.map_eq_some_iff.1 hr
      split
      next => exact .inr (.inl ⟨old, hold, rfl⟩)
      next => exact .inl hold

/-- **A receiver that keeps up is never told that it lags.** -/
theorem not_lagged {i : Nat}
    (hfew : ∀ before, before <+: moves → ∀ r, (after c before).readers[i]? = some r →
      ((after c before).history.drop r.receiver.next).length ≤ max c 1)
    (hr : (after c moves).readers[i]? = some r) (lost : Nat) : .error (.lagged lost) ∉ r.told := by
  induction moves using List.reverseRecOn generalizing r with
  | nil => cases hr
  | append_singleton moves m ih =>
      have hbefore : ∀ {r : Reader}, (after c moves).readers[i]? = some r →
          .error (.lagged lost) ∉ r.told :=
        ih fun before hbefore => hfew before (hbefore.trans (List.prefix_append _ _))
      rw [after_concat] at hr
      rcases reader_cases hr with hold | ⟨old, hold, rfl⟩ | hnew
      · exact hbefore hold
      · intro hlagged
        obtain ⟨reading, r', hreading⟩ :
            ∃ reading r', old.receiver.receiveAny (after c moves).bus = (reading, r') :=
          ⟨_, _, rfl⟩
        rw [Reader.look_eq hreading] at hlagged
        rcases List.mem_append.1 hlagged with hpast | hnow
        · exact hbefore hold hpast
        · obtain rfl := List.mem_singleton.1 (List.mem_filter.1 hnow).1
          -- it would have more unread than there is room for
          have hmore := lt_of_lagged hreading
          have hfew := hfew moves (List.prefix_append _ _) old hold
          have hroom := le_powerOfTwoFrom c
          rw [(sound_after c moves).bus.published, capacity_after] at hmore
          rw [List.length_drop] at hfew
          omega
      · rw [hnew]
        exact List.not_mem_nil

/-! ### Publishing goes on by itself -/

/-- **Those who read do not matter to the bus**: but for their number it is as if nobody had ever
subscribed. -/
theorem after_eq_publishing (c : Nat) (moves : List Move) :
    (after c moves).history = (after c (moves.filter (·.isPublishing))).history ∧
      (after c moves).bus = { (after c (moves.filter (·.isPublishing))).bus with
        subscribers := (after c moves).bus.subscribers } := by
  induction moves using List.reverseRecOn with
  | nil => exact ⟨rfl, rfl⟩
  | append_singleton moves m ih =>
      obtain ⟨hhistory, hbus⟩ := ih
      have hclosed : (after c moves).bus.isClosed =
          (after c (moves.filter (·.isPublishing))).bus.isClosed := by rw [hbus]
      rw [List.filter_append, after_concat]
      cases m with
      | publish e =>
          rw [List.filter_cons_of_pos rfl, List.filter_nil, after_concat, move, move, ← hclosed]
          split
          next => exact ⟨hhistory, hbus⟩
          next =>
              refine ⟨congrArg (· ++ [e]) hhistory, ?_⟩
              dsimp only
              rw [hbus]
              rfl
      | close =>
          rw [List.filter_cons_of_pos rfl, List.filter_nil, after_concat, move, move]
          refine ⟨hhistory, ?_⟩
          dsimp only
          rw [hbus]
          rfl
      | subscribe task =>
          rw [List.filter_cons_of_neg Bool.false_ne_true, List.filter_nil, List.append_nil, move]
          split
          next => exact ⟨hhistory, hbus⟩
          next =>
              refine ⟨hhistory, ?_⟩
              dsimp only [subscribe]
              rw [hbus]
      | look i =>
          rw [List.filter_cons_of_neg Bool.false_ne_true, List.filter_nil, List.append_nil, move]
          exact ⟨hhistory, hbus⟩
      | unsubscribe =>
          rw [List.filter_cons_of_neg Bool.false_ne_true, List.filter_nil, List.append_nil, move]
          refine ⟨hhistory, ?_⟩
          dsimp only [unsubscribe]
          rw [hbus]

end Hub

/-! ### To receive is to look -/

namespace Reader

variable {r : Reader} {bus : EventBus}

/-- A receiver for all tasks receives what it meets. -/
theorem receive_eq_look (hplain : r.receiver.task = none) : r.receive bus = r.look bus := by
  obtain ⟨reading, receiver, hreading⟩ :
      ∃ reading receiver, r.receiver.receiveAny bus = (reading, receiver) := ⟨_, _, rfl⟩
  have hreceive : r.receiver.receive bus = (reading, receiver) := by
    rw [EventReceiver.receive, EventReceiver.receiveWithin, hreading]
    cases reading <;> simp [hplain]
  rw [receive, hreceive, look_eq hreading, hplain, List.filter_cons_of_pos (concerns_none reading),
    List.filter_nil]

/-- Every look at an event leaves less to be read. -/
theorem receiveAny_ok {receiver receiver' : EventReceiver} {e : Event}
    (h : receiver.receiveAny bus = (.ok e, receiver')) :
    receiver.next < bus.published ∧ receiver' = { receiver with next := receiver.next + 1 } := by
  simp only [EventReceiver.receiveAny] at h
  split at h
  next => cases h
  next =>
      split at h
      next found hfound =>
          obtain ⟨hplace, -⟩ := List.getElem?_eq_some_iff.1 hfound
          exact ⟨by omega, (Prod.mk.inj h).2.symm⟩
      next => cases h

/-- A receiver looks until it meets something to tell. -/
theorem exists_looks_within {fuel : Nat} (hfuel : bus.published - r.receiver.next < fuel) :
    ∃ n, (look bus)^[n] r = { r with
      receiver := (r.receiver.receiveWithin fuel bus).2
      told := r.told ++ [(r.receiver.receiveWithin fuel bus).1] } := by
  induction fuel generalizing r with
  | zero => omega
  | succ fuel ih =>
      obtain ⟨reading, receiver, hreading⟩ :
          ∃ reading receiver, r.receiver.receiveAny bus = (reading, receiver) := ⟨_, _, rfl⟩
      rw [EventReceiver.receiveWithin, hreading]
      have hlook := look_eq hreading
      cases reading with
      | error e => exact ⟨1, hlook⟩
      | ok e =>
          dsimp only
          split
          next hconcerns =>
              rw [List.filter_cons_of_pos (by exact hconcerns)] at hlook
              exact ⟨1, hlook⟩
          next hother =>
              rw [List.filter_cons_of_neg (by exact hother), List.filter_nil,
                List.append_nil] at hlook
              obtain ⟨hnext, rfl⟩ := receiveAny_ok hreading
              obtain ⟨n, hn⟩ := @ih (r.look bus) (by rw [hlook]; dsimp only; omega)
              refine ⟨n + 1, ?_⟩
              rw [Function.iterate_succ_apply, hn, hlook]

/-- **To receive is to look some times.** -/
theorem exists_looks (bus : EventBus) (r : Reader) : ∃ n, (look bus)^[n] r = r.receive bus :=
  exists_looks_within (Nat.lt_succ_self _)

end Reader

namespace Hub

variable {s : Hub}

theorem foldl_look (n i : Nat) : (List.replicate n (.look i)).foldl move s =
    { s with readers := s.readers.modify i (Reader.look s.bus)^[n] } := by
  induction n generalizing s with
  | zero => simp
  | succ n ih =>
      rw [List.replicate_succ, List.foldl_cons, ih, move]
      dsimp only
      rw [List.modify_modify_eq, Function.iterate_succ]

/-- **What one receives is met by looking**: nothing happens that could not happen look by look. -/
theorem exists_receive_eq (s : Hub) (i : Nat) :
    ∃ n, s.receive i = (List.replicate n (.look i)).foldl move s := by
  cases hr : s.readers[i]? with
  | none =>
      have hlength := List.getElem?_eq_none_iff.1 hr
      refine ⟨0, ?_⟩
      rw [receive, List.modify_eq_self hlength]
      rfl
  | some r =>
      obtain ⟨n, hn⟩ := r.exists_looks s.bus
      refine ⟨n, ?_⟩
      rw [foldl_look, receive]
      congr 1
      refine List.ext_getElem? fun j => ?_
      rw [List.getElem?_modify, List.getElem?_modify]
      split
      next hij =>
          rw [← hij, hr]
          exact congrArg some hn.symm
      next => rfl

end Hub

/-! ### Receivers for one task -/

/-- Two readers that have looked at the same moments, one of them at everything: the other one is
told what concerns it of all that this one is told. -/
structure Reader.Twin (r p : Reader) : Prop where
  plain : p.receiver.task = none
  next : p.receiver.next = r.receiver.next
  since : p.since = r.since
  told : r.told = p.told.filter (concerns r.receiver.task)

/-- Twins that look at the same moment are twins. -/
theorem Reader.Twin.look {r p : Reader} (h : r.Twin p) (bus : EventBus) :
    (r.look bus).Twin (p.look bus) := by
  obtain ⟨reading, r', hreading⟩ : ∃ reading r', r.receiver.receiveAny bus = (reading, r') :=
    ⟨_, _, rfl⟩
  obtain ⟨htask, hother⟩ := receiveAny_congr h.next hreading
  rw [look_eq hreading, look_eq hother]
  refine ⟨h.plain, rfl, h.since, ?_⟩
  rw [h.plain, List.filter_cons_of_pos (concerns_none reading), List.filter_nil, htask,
    List.filter_append, h.told]

namespace Hub

/-- Whoever is at the same place in two lists is changed alike. -/
theorem forall₂_modify {A : Type} {R : A → A → Prop} {f g : A → A}
    (hfg : ∀ a b, R a b → R (f a) (g b)) {as bs : List A} (h : List.Forall₂ R as bs) (i : Nat) :
    List.Forall₂ R (as.modify i f) (bs.modify i g) := by
  induction h generalizing i with
  | nil => cases i <;> exact .nil
  | cons hab hrest ih =>
      cases i with
      | zero => exact .cons (hfg _ _ hab) hrest
      | succ i => exact .cons hab (ih i)

/-- **Subscribing to everything instead of a task** changes what is told and nothing else. -/
theorem after_plain (c : Nat) (moves : List Move) :
    (after c (moves.map .plain)).bus = (after c moves).bus ∧
      (after c (moves.map .plain)).history = (after c moves).history ∧
      List.Forall₂ Reader.Twin (after c moves).readers (after c (moves.map .plain)).readers := by
  induction moves using List.reverseRecOn with
  | nil => exact ⟨rfl, rfl, .nil⟩
  | append_singleton moves m ih =>
      obtain ⟨hbus, hhistory, htwins⟩ := ih
      rw [List.map_append, List.map_singleton, after_concat, after_concat]
      cases m with
      | publish e =>
          rw [Move.plain, move, move, hbus]
          split
          next => exact ⟨hbus, hhistory, htwins⟩
          next => exact ⟨rfl, congrArg (· ++ [e]) hhistory, htwins⟩
      | subscribe task =>
          rw [Move.plain, move, move, hbus]
          split
          next => exact ⟨hbus, hhistory, htwins⟩
          next => exact ⟨rfl, hhistory, List.rel_append htwins (.cons ⟨rfl, rfl, rfl, rfl⟩ .nil)⟩
      | look i =>
          rw [Move.plain, move, move, hbus]
          exact ⟨rfl, hhistory, forall₂_modify (fun _ _ h => h.look _) htwins i⟩
      | unsubscribe =>
          rw [Move.plain, move, move, hbus]
          exact ⟨rfl, hhistory, htwins⟩
      | close =>
          rw [Move.plain, move, move, hbus]
          exact ⟨rfl, hhistory, htwins⟩

/-- **A receiver is told events in the order in which they were published**, each at most once and
none that were published before it subscribed. -/
theorem delivered_sublist_history {c : Nat} {moves : List Move} {r : Reader}
    (hr : r ∈ (after c moves).readers) :
    (delivered r.told).Sublist ((after c moves).history.drop r.since) := by
  obtain ⟨-, hhistory, htwins⟩ := after_plain c moves
  obtain ⟨i, hi, rfl⟩ := List.getElem_of_mem hr
  have hlength := htwins.length_eq
  have htwin := htwins.get hi (hlength ▸ hi)
  have hsound := (sound_after c (moves.map .plain)).readers _ (List.getElem_mem (hlength ▸ hi))
  have hreplay := (hsound.replay htwin.plain).delivered_sublist
  have htold : (after c moves).readers[i].told = _ := htwin.told
  have hsince : _ = (after c moves).readers[i].since := htwin.since
  rw [htold, delivered_filter, ← hhistory, ← hsince]
  exact List.filter_sublist.trans hreplay

end Hub

/-- Events that concern a task are events of it, and no registrations. -/
theorem exists_kind_of_concerns {task : String} {e : Event}
    (h : concerns (some task) (.ok e) = true) : ∃ event, e.kind = .task task event := by
  have htask : e.taskId? = some task := by simpa [concerns] using h
  rw [Event.taskId?] at htask
  split at htask
  next => cases htask
  next event hkind =>
      obtain rfl := Option.some.inj htask
      exact ⟨event, hkind⟩

/-! ### The accounts -/

open Hub (after)

/-- What holds of a bus and its receivers after some moves. -/
structure Accounts (c : Nat) (moves : List Move) : Prop where
  /-- What was published is what the moves publish, and the bus has counted it. -/
  history : (after c moves).history = Move.publications moves
  published : (after c moves).bus.published = (after c moves).history.length
  /-- The readers are those who subscribe in the moves, each with the task that it asked for, and
  told of what is published after it subscribed. -/
  readers : (after c moves).readers.map (fun r => (r.receiver.task, r.since)) =
    Move.subscriptions 0 moves
  room : max c 1 ≤ (after c moves).bus.capacity
  /-- The last events are kept, as many as there is room for. -/
  kept : (after c moves).bus.kept =
    (after c moves).history.drop ((after c moves).history.length - (after c moves).bus.capacity)
  /-- Who subscribes or looks matters neither to the bus nor to what is published. -/
  publishing : (after c moves).history = (after c (moves.filter (·.isPublishing))).history ∧
    (after c moves).bus = { (after c (moves.filter (·.isPublishing))).bus with
      subscribers := (after c moves).bus.subscribers }
  /-- Whoever looks next meets the first event that it has not read, and is told of lost ones
  exactly when there are some. -/
  meets : ∀ r ∈ (after c moves).readers,
    Meets (after c moves).bus.isClosed (after c moves).bus.kept
      ((after c moves).history.drop r.receiver.next) (r.receiver.receiveAny (after c moves).bus).1
      ((after c moves).history.drop (r.receiver.receiveAny (after c moves).bus).2.next)
  /-- What a receiver was told is replayed on what was published since it subscribed. -/
  replay : ∀ r ∈ (after c moves).readers, r.receiver.task = none →
    Replay ((after c moves).history.drop r.since) r.told
      ((after c moves).history.drop r.receiver.next)
  /-- Events are told in the order in which they were published, each at most once. -/
  order : ∀ r ∈ (after c moves).readers,
    (delivered r.told).Sublist ((after c moves).history.drop r.since)
  balance : ∀ r ∈ (after c moves).readers, r.receiver.task = none →
    (delivered r.told).length + lostCount r.told +
      ((after c moves).history.drop r.receiver.next).length =
        ((after c moves).history.drop r.since).length
  /-- A receiver that never has more to read than was asked for is not told that it lags. -/
  keepsUp : ∀ i : Nat,
    (∀ before, before <+: moves → ∀ r, (after c before).readers[i]? = some r →
      ((after c before).history.drop r.receiver.next).length ≤ max c 1) →
    ∀ r, (after c moves).readers[i]? = some r → ∀ lost, .error (.lagged lost) ∉ r.told
  /-- To receive is to look some times. -/
  receive : ∀ i : Nat, ∃ n,
    (after c moves).receive i = after c (moves ++ List.replicate n (.look i))
  receivePlain : ∀ r ∈ (after c moves).readers, r.receiver.task = none →
    r.receive (after c moves).bus = r.look (after c moves).bus
  /-- A receiver for a task is told what concerns it of what another one would be told that
  subscribes to everything and looks at the same moments. -/
  twins : List.Forall₂ Reader.Twin (after c moves).readers (after c (moves.map .plain)).readers
  /-- It is told of no other task and of no registration. -/
  own : ∀ r ∈ (after c moves).readers, ∀ task, r.receiver.task = some task →
    ∀ e, .ok e ∈ r.told → ∃ event, e.kind = .task task event

/-- **The accounts of all receivers**, whatever is published, and whoever subscribes and looks
when. -/
theorem accounts (c : Nat) (moves : List Move) : Accounts c moves := by
  have hsound := Hub.sound_after c moves
  obtain ⟨-, -, htwins⟩ := Hub.after_plain c moves
  refine ⟨Hub.history_after c moves, hsound.bus.published, Hub.subscription_after c moves, ?room,
    hsound.bus.kept, Hub.after_eq_publishing c moves, ?meets, ?replay,
    fun _ => Hub.delivered_sublist_history, ?balance, ?keepsUp, ?receive, ?receivePlain, htwins, ?own⟩
  case room =>
      rw [Hub.capacity_after]
      exact le_powerOfTwoFrom c
  case meets => exact fun r hr => (hsound.bus.meets (hsound.readers r hr).next_le rfl).1
  case replay => exact fun r hr hplain => (hsound.readers r hr).replay hplain
  case balance => exact fun r hr hplain => ((hsound.readers r hr).replay hplain).balance
  case keepsUp => exact fun i hfew r hr lost => Hub.not_lagged hfew hr lost
  case receive =>
      intro i
      obtain ⟨n, hn⟩ := (after c moves).exists_receive_eq i
      refine ⟨n, hn.trans ?_⟩
      rw [after, after, List.foldl_append]
  case receivePlain => exact fun r _ hplain => Reader.receive_eq_look hplain
  case own =>
      intro r hr task htask e he
      obtain ⟨i, hi, rfl⟩ := List.getElem_of_mem hr
      have htold : (after c moves).readers[i].told = _ :=
        (htwins.get hi (htwins.length_eq ▸ hi)).told
      rw [htold] at he
      have hconcerns : concerns (after c moves).readers[i].receiver.task (.ok e) = true :=
        (List.mem_filter.1 he).2
      rw [htask] at hconcerns
      exact exists_kind_of_concerns hconcerns

/-- Of three events a bus with room for one keeps the last, and a receiver has lost the others. -/
example (e₁ e₂ e₃ : Event) :
    (after 0 [.subscribe none, .publish e₁, .publish e₂, .publish e₃, .look 0, .look 0, .look 0]
      ).readers.map (·.told) = [[.error (.lagged 2), .ok e₃, .error .empty]] := rfl

end AgentSwarm.EventBus
