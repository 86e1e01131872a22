/-
**The event bus.**

A bus keeps the last events, as many as its capacity, and numbers all that were ever published.  A
receiver stands at a number.  When the events it waits for are no longer kept, it learns how many it
has lost and goes on with the oldest one kept.

Main definitions:

* `AgentSwarm.EventBus` — the kept events and the number of all;
* `AgentSwarm.EventBus.publish` — one more event;
* `AgentSwarm.EventReceiver`, `AgentSwarm.EventReceiver.receive` — a receiver and its next event.

Main results:

* `AgentSwarm.EventBus.published_publish` — every event is counted;
* `AgentSwarm.EventBus.length_kept_publish_le` — the capacity is never exceeded.
-/

import AgentSwarm.Event

set_option relaxedAutoImplicit false
set_option autoImplicit false

namespace AgentSwarm

/-! ### Publishing -/

/-- The least power of two that is not below `n`. -/
def powerOfTwoFrom (n : Nat) : Nat := if n ≤ 1 then 1 else Nat.pow 2 ((n - 1).log2 + 1)

/-- The last events of a swarm. -/
structure EventBus where
  /-- How many events are kept. -/
  capacity : Nat
  /-- The events that are kept, oldest first. -/
  kept : List Event
  /-- How many events were ever published. -/
  published : Nat
  subscribers : Nat
  isClosed : Bool
deriving Inhabited

namespace EventBus

/-- The capacity of a bus for which none is given. -/
def defaultCapacity : Nat := 1000

/-- A bus that keeps at least `capacity` events. -/
def ofCapacity (capacity : Nat) : EventBus := ⟨powerOfTwoFrom capacity, [], 0, 0, false⟩

/-- The bus with one more event; the oldest one goes when the bus is full. -/
def publish (bus : EventBus) (e : Event) : EventBus :=
  let kept := if bus.kept.length < bus.capacity then bus.kept else bus.kept.drop 1
  { bus with kept := kept ++ [e], published := bus.published + 1 }

/-- The bus with more events. -/
def publishAll (bus : EventBus) (events : List Event) : EventBus := events.foldl publish bus

/-- The bus after its last publisher has gone. -/
def close (bus : EventBus) : EventBus := { bus with isClosed := true }

/-- The bus with one receiver less. -/
def unsubscribe (bus : EventBus) : EventBus := { bus with subscribers := bus.subscribers - 1 }

@[simp] theorem published_publish (bus : EventBus) (e : Event) :
    (bus.publish e).published = bus.published + 1 := rfl

@[simp] theorem capacity_publish (bus : EventBus) (e : Event) :
    (bus.publish e).capacity = bus.capacity := rfl

theorem length_kept_publish_le {bus : EventBus} (e : Event) (hc : 0 < bus.capacity)
    (hk : bus.kept.length ≤ bus.capacity) : (bus.publish e).kept.length ≤ bus.capacity := by
  simp only [publish, List.length_append, List.length_singleton]
  split
  · omega
  · rw [List.length_drop]
    omega

end EventBus

/-! ### Receiving -/

/-- Why a receiver has no event. -/
inductive BusError where
  | closed
  | empty
  /-- Some events were dropped before they were read. -/
  | lagged (lost : Nat)
deriving DecidableEq, Repr, Inhabited

namespace BusError

/-- The name of an error. -/
def kind : BusError → String
  | .closed => "Closed"
  | .empty => "Empty"
  | .lagged _ => "Lagged"

/-- The wording of an error. -/
def message : BusError → String
  | .closed => "Event bus is closed"
  | .empty => "No events available"
  | .lagged lost =>
    "Receiver lagged by " ++ String.ofList (Decimal.natChars lost) ++
      " events (events were dropped)"

end BusError

/-- A reader of a bus. -/
structure EventReceiver where
  /-- The only task whose events are read, if any. -/
  task : Option String
  /-- The number of the next event, counted from the first ever published. -/
  next : Nat
deriving DecidableEq, Repr, Inhabited

/-- A receiver of the events to come. -/
def EventBus.subscribe (bus : EventBus) (task : Option String) : EventBus × EventReceiver :=
  ({ bus with subscribers := bus.subscribers + 1 }, ⟨task, bus.published⟩)

namespace EventReceiver

/-- The next event of any task, and the receiver behind it. -/
def receiveAny (r : EventReceiver) (bus : EventBus) : Except BusError Event × EventReceiver :=
  let unread := bus.published - r.next
  if bus.capacity < unread then
    (.error (.lagged (unread - bus.capacity)), { r with next := bus.published - bus.capacity })
  else
    match bus.kept[bus.kept.length - unread]? with
    | some e => (.ok e, { r with next := r.next + 1 })
    | none => (.error (if bus.isClosed then .closed else .empty), r)

/-- The next event that the receiver reads, after at most `fuel` events of other tasks. -/
def receiveWithin : Nat → EventReceiver → EventBus → Except BusError Event × EventReceiver
  | 0, r, _ => (.error .empty, r)
  | fuel + 1, r, bus =>
    match r.receiveAny bus with
    | (.ok e, r') =>
      if r.task.isNone || e.taskId? = r.task then (.ok e, r') else receiveWithin fuel r' bus
    | other => other

/-- The next event that the receiver reads; events of other tasks are passed over. -/
def receive (r : EventReceiver) (bus : EventBus) : Except BusError Event × EventReceiver :=
  receiveWithin (bus.published - r.next + 1) r bus

end EventReceiver

end AgentSwarm
