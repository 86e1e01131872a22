/-
**Permits are never lost and never made.**

In a sound world every pool has as many permits as the executor allows, each of them free or held by
one live invocation; those who wait for a permit are exactly the invocations that say so, once each;
and nobody waits while a permit is free.  An invocation that leaves hands its permit to the first
who waits, or back to the pool: between these two moments one permit is *lent*, and this is why the
balance is stated with a permit that may be counted twice.

Main definitions:

* `AgentSwarm.World.held` — the permits of a pool that are held;
* `AgentSwarm.World.Listed`, `AgentSwarm.World.Balanced`, `AgentSwarm.World.Queued` — calls and
  invocations have names of their own, permits add up, and waiting lists are right;
* `AgentSwarm.World.Sound` — all three.

Main results:

* `AgentSwarm.World.releasePermit_cases`, `AgentSwarm.World.detach_eq` — who gets a permit that
  is given back;
* `AgentSwarm.World.Sound.detach` — **an invocation leaves a sound world sound**, wherever it was.
-/

import AgentSwarm.Proofs.Executor.Turn

set_option relaxedAutoImplicit false
set_option autoImplicit false

namespace AgentSwarm

/-! ### What is counted -/

/-- One for an invocation that holds a permit of a pool, and zero for the others. -/
def Executor.permitIn (x : Executor) (key : Option String) (i : Invocation) : Nat :=
  if i.stage.holdsPermit = true ∧ x.poolOf i.agent.partition = key then 1 else 0

/-- Live invocations stand at places of their own, as do the agents of a batch, and a caller pauses
only between batches. -/
structure TaskCall.Tidy (c : TaskCall) : Prop where
  places_nodup : (c.live.map (·.place)).Nodup
  batches_nodup : ∀ batch ∈ c.remaining, batch.Nodup
  pausing : c.isPausing = true → c.live = []

/-- The call with the result of an invocation that has ended. -/
def TaskCall.settle (c : TaskCall) (i : Invocation) (r : AgentResult Float) : TaskCall :=
  { c.without i.place with gathered := c.gathered ++ [r] }

namespace World

/-- **The permits of a pool that are held.** -/
def held (w : World) (key : Option String) : Nat := w.total (w.executor.permitIn key)

/-- Calls have numbers of their own, below the next one, and are tidy. -/
structure Listed (w : World) : Prop where
  ids_nodup : (w.calls.map (·.id)).Nodup
  id_lt : ∀ c ∈ w.calls, c.id < w.nextCall
  tidy : ∀ c ∈ w.calls, c.Tidy

/-- The free and the held permits of every pool add up; one of the pool `lent` is counted twice. -/
def Balanced (w : World) (lent : Option (Option String)) : Prop :=
  ∀ key, (w.pool key).free + w.held key =
    w.executor.poolSize + if lent = some key then 1 else 0

/-- Those who wait for a permit are the live invocations that say so, except for `gone`, and nobody
waits while a permit is free. -/
structure Queued (w : World) (gone : Option Actor) : Prop where
  nodup : ∀ key, (w.pool key).waiting.Nodup
  mem_iff : ∀ key a, a ∈ (w.pool key).waiting ↔
    gone ≠ some a ∧ ∃ i, w.unit? a = some i ∧ i.stage = .queued ∧ w.keyOf i = key
  busy : ∀ key, (w.pool key).waiting ≠ [] → (w.pool key).free = 0

/-- Names are distinct, permits add up and waiting lists are right. -/
structure Sound (w : World) : Prop where
  listed : w.Listed
  balanced : w.Balanced none
  queued : w.Queued none

variable {w v : World} {c d : TaskCall} {i : Invocation} {key : Option String}

/-! ### Worlds with the same calls and pools -/

theorem Listed.congr (hc : v.calls = w.calls) (hn : v.nextCall = w.nextCall) (h : w.Listed) :
    v.Listed where
  ids_nodup := hc ▸ h.ids_nodup
  id_lt := by rw [hc, hn]; exact h.id_lt
  tidy := by rw [hc]; exact h.tidy

/-- The next number is that of no call. -/
theorem Listed.call?_nextCall (h : w.Listed) : w.call? w.nextCall = none := by
  rw [call?_eq_none]
  intro hmem
  obtain ⟨c, hc, he⟩ := List.mem_map.1 hmem
  exact absurd he (h.id_lt c hc).ne

theorem Balanced.congr {lent : Option (Option String)} (hx : v.executor = w.executor)
    (hc : v.calls = w.calls) (hp : v.pools = w.pools) (h : w.Balanced lent) : v.Balanced lent := by
  intro key
  have := h key
  simpa only [pool, held, total, hx, hc, hp] using this

theorem Queued.congr {gone : Option Actor} (hx : v.executor = w.executor)
    (hc : v.calls = w.calls) (hp : v.pools = w.pools) (h : w.Queued gone) : v.Queued gone where
  nodup := by
    intro key
    simpa only [pool, hx, hp] using h.nodup key
  mem_iff := by
    intro key a
    have := h.mem_iff key a
    simpa only [pool, keyOf, unit?_congr hc, hx, hp] using this
  busy := by
    intro key
    simpa only [pool, hx, hp] using h.busy key

/-- Only calls, pools and numbers decide whether a world is sound. -/
theorem Sound.congr (hx : v.executor = w.executor) (hc : v.calls = w.calls)
    (hp : v.pools = w.pools) (hn : v.nextCall = w.nextCall) (h : w.Sound) : v.Sound :=
  ⟨h.listed.congr hc hn, h.balanced.congr hx hc hp, h.queued.congr hx hc hp⟩

theorem Sound.rise (h : w.Sound) (a : Actor) : (w.rise a).Sound :=
  Sound.congr (w := w) rfl rfl rfl rfl h

/-! ### Writing a call -/

theorem mem_calls_putCall {e : TaskCall} (h : e ∈ (w.putCall d).calls) : e = d ∨ e ∈ w.calls := by
  obtain ⟨f, hf, rfl⟩ := List.mem_map.1 h
  by_cases hid : f.id = d.id <;> simp [hid, hf]

/-- A call may be replaced by a tidy version. -/
theorem Listed.putCall (h : w.Listed) (hc : w.call? d.id = some c) (hd : d.Tidy) :
    (w.putCall d).Listed where
  ids_nodup := by
    rw [map_id_putCall]
    exact h.ids_nodup
  id_lt := by
    intro e he
    rcases mem_calls_putCall he with rfl | he
    · have := h.id_lt c (mem_calls_of_call? hc)
      rwa [id_of_call? hc] at this
    · exact h.id_lt e he
  tidy := by
    intro e he
    rcases mem_calls_putCall he with rfl | he
    · exact hd
    · exact h.tidy e he

theorem Listed.adjust {f : Invocation → Invocation} (hf : ∀ j, (f j).place = j.place)
    (h : w.Listed) (hi : w.Has c i) : (w.putCall (c.adjust i.place f)).Listed := by
  have hc := h.tidy c hi.mem_calls
  refine h.putCall (c := c) (d := c.adjust i.place f) hi.call ⟨?_, hc.batches_nodup, ?_⟩
  · rw [TaskCall.map_live_adjust hf]
    exact hc.places_nodup
  · intro hp
    simp [TaskCall.adjust, hc.pausing hp]

theorem Listed.without (h : w.Listed) (hi : w.Has c i) :
    (w.putCall (c.without i.place)).Listed := by
  have hc := h.tidy c hi.mem_calls
  refine h.putCall (c := c) (d := c.without i.place) hi.call ⟨?_, hc.batches_nodup, ?_⟩
  · rw [TaskCall.map_place_without]
    exact hc.places_nodup.filter _
  · intro hp
    simp [TaskCall.without, hc.pausing hp]

/-- Changing an invocation counts it as what it has become. -/
theorem held_adjust {f : Invocation → Invocation} (h : w.Listed) (hi : w.Has c i)
    (key : Option String) :
    (w.putCall (c.adjust i.place f)).held key + w.executor.permitIn key i =
      w.held key + w.executor.permitIn key (f i) := by
  have hw := total_putCall (c := c.adjust i.place f) h.ids_nodup hi.call (w.executor.permitIn key)
  have hc := TaskCall.total_adjust (f := f) (h.tidy c hi.mem_calls).places_nodup hi.unit
    (w.executor.permitIn key)
  simp only [held]
  change (w.putCall (c.adjust i.place f)).total (w.executor.permitIn key) + _ = _
  omega

/-- Taking an invocation away counts it no longer. -/
theorem held_without (h : w.Listed) (hi : w.Has c i) (key : Option String) :
    (w.putCall (c.without i.place)).held key + w.executor.permitIn key i = w.held key := by
  have hw := total_putCall (c := c.without i.place) h.ids_nodup hi.call (w.executor.permitIn key)
  have hc := TaskCall.total_without (h.tidy c hi.mem_calls).places_nodup hi.unit
    (w.executor.permitIn key)
  simp only [held]
  change (w.putCall (c.without i.place)).total (w.executor.permitIn key) + _ = _
  omega

/-- A call may be replaced by a tidy version with the same live invocations. -/
theorem Sound.putCall (h : w.Sound) (hc : w.call? d.id = some c) (hlive : d.live = c.live)
    (hd : d.Tidy) : (w.putCall d).Sound where
  listed := h.listed.putCall hc hd
  balanced := by
    intro key
    have hw := total_putCall h.listed.ids_nodup hc (w.executor.permitIn key)
    have hd : d.total (w.executor.permitIn key) = c.total (w.executor.permitIn key) := by
      rw [TaskCall.total, hlive]
      rfl
    have hb := h.balanced key
    simp only [held, executor_putCall, pool_putCall] at hb ⊢
    omega
  queued := by
    have hunit : ∀ a, (w.putCall d).unit? a = w.unit? a := by
      intro a
      rw [unit?_putCall hc]
      cases a with
      | caller id => split <;> rfl
      | invocation id place =>
          split
          next hid =>
            have hid' : id = d.id := hid
            simp [unit?, hid', hc, TaskCall.invocation?, hlive]
          next => rfl
    refine ⟨h.queued.nodup, ?_, h.queued.busy⟩
    intro key a
    rw [hunit]
    exact h.queued.mem_iff key a

/-- An invocation may be changed when it neither gets nor loses a permit or a place in a queue. -/
theorem Sound.adjust {f : Invocation → Invocation} (hf : ∀ j, (f j).place = j.place)
    (h : w.Sound) (hi : w.Has c i) (hagent : (f i).agent = i.agent)
    (hpermit : (f i).stage.holdsPermit = i.stage.holdsPermit)
    (hqueued : (f i).stage = .queued ↔ i.stage = .queued) :
    (w.putCall (c.adjust i.place f)).Sound where
  listed := h.listed.adjust hf hi
  balanced := by
    intro key
    have hw := held_adjust (f := f) h.listed hi key
    have hp : w.executor.permitIn key (f i) = w.executor.permitIn key i := by
      simp only [Executor.permitIn, hagent, hpermit]
    have hb := h.balanced key
    simp only [executor_putCall, pool_putCall]
    omega
  queued := by
    refine ⟨h.queued.nodup, ?_, h.queued.busy⟩
    intro key a
    have hm := h.queued.mem_iff key a
    rw [hi.unit?_adjust hf, pool_putCall]
    by_cases ha : a = actorOf c i
    · have hu := hi.unit?
      rw [← ha] at hu
      rw [hu] at hm ⊢
      simpa [ha, keyOf, hagent, hqueued] using hm
    · rw [if_neg ha]
      exact hm

/-! ### An invocation and its pool -/

/-- Permits add up when an invocation and its pool change so that they add up. -/
theorem Balanced.exchange (lent : Option (Option String)) (stage : Stage) (p : Pool)
    (hl : w.Listed) (h : w.Balanced none) (hi : w.Has c i)
    (hlent : ∀ key, lent = some key → key = w.keyOf i)
    (hsum : p.free + (if stage.holdsPermit then 1 else 0) = (w.pool (w.keyOf i)).free +
      (if i.stage.holdsPermit then 1 else 0) + if lent = some (w.keyOf i) then 1 else 0) :
    ((w.putPool (w.keyOf i) p).putCall (c.setStage i.place stage)).Balanced lent := by
  intro key
  have hb := h key
  have hh := held_adjust (f := fun i => { i with stage }) hl hi key
  change ((w.putPool (w.keyOf i) p).pool key).free +
    (w.putCall (c.setStage i.place stage)).held key = w.executor.poolSize + _
  change (w.putCall (c.setStage i.place stage)).held key + _ = _ at hh
  simp only [reduceCtorEq, if_false] at hb
  rw [pool_putPool]
  -- in other pools the invocation counts for nothing, whatever its stage
  by_cases hk : key = w.keyOf i
  · subst hk
    have hpermit : ∀ s : Stage, w.executor.permitIn (w.keyOf i) { i with stage := s } =
        if s.holdsPermit then 1 else 0 := by
      intro s
      simp [Executor.permitIn, keyOf]
    have hold : w.executor.permitIn (w.keyOf i) i = if i.stage.holdsPermit then 1 else 0 :=
      hpermit i.stage
    rw [hold, hpermit] at hh
    rw [if_pos rfl]
    omega
  · have hpermit : ∀ s : Stage, w.executor.permitIn key { i with stage := s } = 0 := by
      intro s
      exact if_neg fun he => hk he.2.symm
    have hold : w.executor.permitIn key i = 0 := hpermit i.stage
    rw [hold, hpermit] at hh
    rw [if_neg hk, if_neg fun he => hk (hlent key he)]
    omega

/-- Waiting lists are right when an invocation and its pool change so that only the place of the
invocation in its own list changes. -/
theorem Queued.exchange (stage : Stage) (p : Pool) (h : w.Queued none) (hi : w.Has c i)
    (hnodup : p.waiting.Nodup) (hself : actorOf c i ∈ p.waiting ↔ stage = .queued)
    (hothers : ∀ a, a ≠ actorOf c i → (a ∈ p.waiting ↔ a ∈ (w.pool (w.keyOf i)).waiting))
    (hbusy : p.waiting ≠ [] → p.free = 0) :
    ((w.putPool (w.keyOf i) p).putCall (c.setStage i.place stage)).Queued none := by
  refine ⟨?_, ?_, ?_⟩
  · intro key
    rw [pool_putCall, pool_putPool]
    split
    · exact hnodup
    · exact h.nodup key
  · intro key a
    have hm := h.mem_iff key a
    rw [pool_putCall, pool_putPool]
    change _ ↔ _ ∧ ∃ j, (w.putCall (c.setStage i.place stage)).unit? a = some j ∧
      j.stage = .queued ∧ w.keyOf j = key
    rw [hi.unit?_setStage]
    by_cases ha : a = actorOf c i
    · subst ha
      have hkey : w.keyOf { i with stage } = w.keyOf i := rfl
      split
      next hk => simp [hself, hkey, hk]
      next hk =>
          -- it waited in no other queue
          have hout : actorOf c i ∉ (w.pool key).waiting := by
            rw [hm, hi.unit?]
            rintro ⟨_, j, hj, _, hjk⟩
            obtain rfl := Option.some.inj hj
            exact hk hjk.symm
          simpa [hout, hkey] using fun _ he => hk (Eq.symm he)
    · rw [if_neg ha]
      split
      next hk =>
          subst hk
          rw [hothers a ha]
          exact hm
      next => exact hm
  · intro key hne
    rw [pool_putCall, pool_putPool] at hne ⊢
    split at hne
    next hk =>
        rw [if_pos hk]
        exact hbusy hne
    next hk =>
        rw [if_neg hk]
        exact h.busy key hne

/-! ### Giving a permit back -/

/-- **Who gets a permit that is given back**: the pool when nobody waits, else the first. -/
theorem releasePermit_cases {gone : Option Actor} (h : w.Queued gone) (key : Option String) :
    ((w.pool key).waiting = [] ∧ w.releasePermit key =
      w.putPool key { w.pool key with free := (w.pool key).free + 1 }) ∨
    ∃ c i rest, (w.pool key).waiting = actorOf c i :: rest ∧ w.Has c i ∧ i.stage = .queued ∧
      w.keyOf i = key ∧ w.releasePermit key =
        ((w.putPool key { w.pool key with waiting := rest }).putCall
          (c.setStage i.place .admitted)).wake (actorOf c i) := by
  cases hw : (w.pool key).waiting with
  | nil =>
      refine .inl ⟨rfl, ?_⟩
      simp only [releasePermit, hw]
  | cons a rest =>
      obtain ⟨_, i, hi, hstage, hkey⟩ := (h.mem_iff key a).1 (by simp [hw])
      obtain ⟨c, hc, rfl⟩ := Has.of_unit? hi
      refine .inr ⟨c, i, rest, rfl, hc, hstage, hkey, ?_⟩
      simp only [releasePermit, hw, actorOf]
      rw [show (w.putPool key { w.pool key with waiting := rest }).call? c.id = some c from hc.call]

/-- A permit that is given back is lent until its holder is taken away. -/
theorem Balanced.releasePermit {gone : Option Actor} (hl : w.Listed) (hq : w.Queued gone)
    (h : w.Balanced none) (key : Option String) :
    (w.releasePermit key).Balanced (some key) := by
  rcases releasePermit_cases hq key with ⟨_, he⟩ | ⟨c, i, rest, _, hi, hs, rfl, he⟩
  · intro k
    have hb := h k
    rw [he, pool_putPool]
    change _ + w.held k = w.executor.poolSize + _
    simp only [reduceCtorEq, if_false, Option.some.injEq] at hb ⊢
    by_cases hk : k = key
    · subst hk
      simp only [if_true]
      omega
    · rw [if_neg hk, if_neg fun he => hk he.symm]
      exact hb
  · rw [he]
    have hexchange := h.exchange (some (w.keyOf i)) .admitted
      { w.pool (w.keyOf i) with waiting := rest } hl hi (fun _ he => (Option.some.inj he).symm)
      (by simp [hs, Stage.holdsPermit])
    exact Balanced.congr (w := (w.putPool (w.keyOf i) _).putCall (c.setStage i.place .admitted))
      rfl rfl rfl hexchange

/-- After a permit was given back the waiting lists are right again. -/
theorem Queued.releasePermit (h : w.Queued none) (key : Option String) :
    (w.releasePermit key).Queued none := by
  rcases releasePermit_cases h key with ⟨hnil, he⟩ | ⟨c, i, rest, hw, hi, hs, rfl, he⟩
  · rw [he]
    refine ⟨?_, ?_, ?_⟩
    · intro k
      rw [pool_putPool]
      split
      · exact h.nodup key
      · exact h.nodup k
    · intro k a
      have hm := h.mem_iff k a
      rw [pool_putPool]
      split
      next hkk => exact hkk ▸ hm
      next => exact hm
    · intro k hne
      rw [pool_putPool] at hne ⊢
      split at hne
      · exact absurd hnil hne
      next hkk =>
          rw [if_neg hkk]
          exact h.busy k hne
  · -- the first of the queue waits no longer
    have hnodup := h.nodup (w.keyOf i)
    rw [hw, List.nodup_cons] at hnodup
    have hbusy := h.busy (w.keyOf i) (by simp [hw])
    have hexchange := h.exchange .admitted { w.pool (w.keyOf i) with waiting := rest } hi hnodup.2 (by simp [hnodup.1])
      (fun a ha => by simp [hw, ha]) fun _ => hbusy
    rw [he]
    exact Queued.congr (w := (w.putPool (w.keyOf i) _).putCall (c.setStage i.place .admitted))
      rfl rfl rfl hexchange

/-- Giving a permit back changes no names. -/
theorem Listed.releasePermit (hq : w.Queued none) (h : w.Listed) (key : Option String) :
    (w.releasePermit key).Listed := by
  rcases releasePermit_cases hq key with ⟨_, he⟩ | ⟨c, i, rest, _, hi, _, _, he⟩
  · rw [he]
    exact Listed.congr (w := w) rfl rfl h
  · rw [he]
    have hset := h.adjust (f := fun i => { i with stage := .admitted }) (fun _ => rfl) hi
    exact Listed.congr (w := w.putCall (c.setStage i.place .admitted)) rfl rfl hset

/-! ### Leaving a pool -/

/-- Whom a queue has lost when an invocation has left its pool, but is still live. -/
def goneOf (c : TaskCall) (i : Invocation) : Option Actor :=
  match i.stage with
  | .queued => some (actorOf c i)
  | _ => none

/-- Which pool has lent a permit when an invocation has left it, but is still live. -/
def lentOf (w : World) (i : Invocation) : Option (Option String) :=
  if i.stage.holdsPermit then some (w.keyOf i) else none

/-- **Leaving a pool changes pools only, or hands the permit on to another invocation.** -/
theorem leavePool_cases (h : w.Queued none) (hi : w.Has c i) :
    (∃ pools, w.leavePool c.id i = { w with pools }) ∨
    ∃ pools d j, w.Has d j ∧ j.stage = .queued ∧ actorOf d j ≠ actorOf c i ∧
      w.leavePool c.id i =
        (({ w with pools } : World).putCall (d.setStage j.place .admitted)).wake (actorOf d j) := by
  have hrelease : i.stage.holdsPermit = true →
      w.leavePool c.id i = w.releasePermit (w.keyOf i) := by
    intro hp
    cases hs : i.stage <;> simp_all [leavePool, keyOf, Stage.holdsPermit]
  cases hs : i.stage with
  | fresh => exact .inl ⟨w.pools, by simp [leavePool, hs]⟩
  | queued => exact .inl ⟨_, by simp only [leavePool, hs]; rfl⟩
  | admitted | throttled | calling endsAt ending =>
      -- the first who waits is another invocation: this one holds a permit
      rw [hrelease (by rw [hs]; rfl)]
      rcases releasePermit_cases h (w.keyOf i) with ⟨_, he⟩ | ⟨d, j, rest, _, hj, hq, _, he⟩
      · exact .inl ⟨_, he⟩
      · refine .inr ⟨_, d, j, hj, hq, ?_, he⟩
        intro heq
        obtain ⟨rfl, rfl⟩ := hi.eq_of_actorOf hj heq
        rw [hs] at hq
        cases hq

/-- Leaving a pool changes no names. -/
theorem Listed.leavePool (hq : w.Queued none) (h : w.Listed) (id : Nat) :
    (w.leavePool id i).Listed := by
  cases hs : i.stage with
  | fresh => simpa only [World.leavePool, hs] using h
  | queued =>
      simp only [World.leavePool, hs]
      exact Listed.congr (w := w) rfl rfl h
  | admitted | throttled | calling endsAt ending =>
      simp only [World.leavePool, hs]
      exact h.releasePermit hq _

/-- An invocation that has left its pool has lent the permit that it held. -/
theorem Balanced.leavePool (hl : w.Listed) (hq : w.Queued none) (h : w.Balanced none) (id : Nat) :
    (w.leavePool id i).Balanced (w.lentOf i) := by
  cases hs : i.stage with
  | fresh =>
      simp only [World.leavePool, lentOf, hs]
      exact h
  | queued =>
      simp only [World.leavePool, lentOf, hs]
      intro key
      have hb := h key
      rw [pool_putPool]
      change _ + w.held key = w.executor.poolSize + _
      split
      next hk =>
          subst hk
          exact hb
      next => exact hb
  | admitted | throttled | calling endsAt ending =>
      simp only [World.leavePool, lentOf, hs]
      exact Balanced.releasePermit hl hq h _

/-- After an invocation has left its pool, all others who wait are in their queues. -/
theorem Queued.leavePool (h : w.Queued none) (hi : w.Has c i) :
    (w.leavePool c.id i).Queued (goneOf c i) := by
  cases hs : i.stage with
  | fresh => simpa only [World.leavePool, goneOf, hs] using h
  | admitted | throttled | calling endsAt ending =>
      simp only [World.leavePool, goneOf, hs]
      exact h.releasePermit _
  | queued =>
      simp only [World.leavePool, goneOf, hs]
      refine ⟨?_, ?_, ?_⟩
      · intro k
        rw [pool_putPool]
        split
        · exact (h.nodup _).filter _
        · exact h.nodup k
      · intro k a
        have hm := h.mem_iff k a
        change a ∈ ((w.putPool (w.keyOf i) _).pool k).waiting ↔
          _ ∧ ∃ j, w.unit? a = some j ∧ j.stage = .queued ∧ w.keyOf j = k
        rw [pool_putPool]
        by_cases ha : a = actorOf c i
        · -- it is taken out of its own list, and was in no other
          subst ha
          have hout : k ≠ w.keyOf i → actorOf c i ∉ (w.pool k).waiting := by
            intro hk
            rw [hm, hi.unit?]
            rintro ⟨_, j, hj, _, hjk⟩
            obtain rfl := Option.some.inj hj
            exact hk hjk.symm
          split
          next => simp [actorOf]
          next hk => simp [hout hk]
        · have hne : some (actorOf c i) ≠ some a := fun he => ha (Option.some.inj he).symm
          split
          next hk =>
              subst hk
              simp only [List.mem_filter, hne, ne_eq, not_false_eq_true, true_and]
              have hb : (a != .invocation c.id i.place) = true := by simpa [actorOf] using ha
              simpa [hb, keyOf] using hm
          next => simpa [hne] using hm
      · intro k hne
        rw [pool_putPool] at hne ⊢
        split at hne
        next hk =>
            rw [if_pos hk]
            refine h.busy (w.executor.poolOf i.agent.partition) ?_
            intro hnil
            exact hne (by simp [hnil])
        next hk =>
            rw [if_neg hk]
            exact h.busy k hne

/-- A call in which at most one invocation that waited has been given a permit. -/
inductive Granted (c : TaskCall) : TaskCall → Prop
  | same : Granted c c
  | given {j : Invocation} : c.invocation? j.place = some j → j.stage = .queued →
      Granted c (c.setStage j.place .admitted)

theorem Granted.id_eq (h : Granted c d) : d.id = c.id := by cases h <;> rfl

/-- A permit changes no place. -/
theorem Granted.map_place (h : Granted c d) : d.live.map (·.place) = c.live.map (·.place) := by
  cases h with
  | same => rfl
  | given _ _ => exact TaskCall.map_live_adjust fun _ => rfl

/-- An invocation is still live when it has left its pool. -/
theorem Has.leavePool (hq : w.Queued none) (hi : w.Has c i) :
    ∃ c₁, Granted c c₁ ∧ (w.leavePool c.id i).Has c₁ i := by
  rcases leavePool_cases hq hi with ⟨pools, he⟩ | ⟨pools, d, j, hj, hs, hne, he⟩
  · exact ⟨c, .same, by rw [he]; exact ⟨hi.call, hi.unit⟩⟩
  · have hi' : ({ w with pools } : World).Has c i := ⟨hi.call, hi.unit⟩
    have hj' : ({ w with pools } : World).Has d j := ⟨hj.call, hj.unit⟩
    obtain ⟨c₁, hc₁, h₁⟩ := hi'.setStage_other hj' hne .admitted
    refine ⟨c₁, ?_, by rw [he]; exact ⟨h₁.call, h₁.unit⟩⟩
    rcases hc₁ with rfl | ⟨rfl, rfl⟩
    · exact .same
    · exact .given hj.unit hs

/-- Every call stays when an invocation leaves its pool, and at most one of them gets a permit. -/
theorem call?_leavePool (hq : w.Queued none) (hi : w.Has c i) {k : Nat}
    (hd : w.call? k = some d) :
    ∃ d₁, (w.leavePool c.id i).call? k = some d₁ ∧ Granted d d₁ := by
  rcases leavePool_cases hq hi with ⟨pools, he⟩ | ⟨pools, e, j, hj, hs, _, he⟩
  · exact ⟨d, by rw [he]; exact hd, .same⟩
  · rw [he]
    change ∃ d₁, (w.putCall (e.setStage j.place .admitted)).call? k = some d₁ ∧ _
    rw [call?_putCall, hd]
    split
    next hid =>
        have hde : some d = some e := by
          rw [← hd, ← hj.call, hid]
          rfl
        obtain rfl := Option.some.inj hde
        exact ⟨_, rfl, .given hj.unit hs⟩
    next => exact ⟨d, rfl, .same⟩

/-! ### Leaving -/

/-- **What becomes of a world that an invocation leaves**: its pool is left, perhaps for another
invocation, and then the call is written without it. -/
theorem detach_eq (h : w.Queued none) (hi : w.Has c i) :
    ∃ c₁, Granted c c₁ ∧ (w.leavePool c.id i).Has c₁ i ∧ w.detach c.id i =
      ((w.leavePool c.id i).putCall (c₁.without i.place)).forget (actorOf c i) := by
  obtain ⟨c₁, hgrant, h₁⟩ := hi.leavePool h
  refine ⟨c₁, hgrant, h₁, ?_⟩
  have hcall : ((w.leavePool c.id i).forget (actorOf c i)).call? c.id = some c₁ :=
    hgrant.id_eq ▸ h₁.call
  simp only [World.detach]
  rw [show ((w.leavePool c.id i).forget (.invocation c.id i.place)).call? c.id = some c₁ from hcall]
  rfl

/-- **An invocation leaves a sound world sound**, wherever it was. -/
theorem Sound.detach (h : w.Sound) (hi : w.Has c i) : (w.detach c.id i).Sound := by
  obtain ⟨c₁, hgrant, h₁, he⟩ := detach_eq h.queued hi
  have hlisted := h.listed.leavePool (i := i) h.queued c.id
  have hbalanced := h.balanced.leavePool (i := i) h.listed h.queued c.id
  have hqueued := h.queued.leavePool hi
  have hexec := (steady_leavePool w c.id i).executor
  have hactor : actorOf c₁ i = actorOf c i := by rw [actorOf, actorOf, hgrant.id_eq]
  have hsound : ((w.leavePool c.id i).putCall (c₁.without i.place)).Sound := by
    refine ⟨hlisted.without h₁, ?_, ?_, ?_, ?_⟩
    · -- the permit that was lent is counted no longer
      intro key
      have hb := hbalanced key
      have hh := held_without hlisted h₁ key
      simp only [executor_putCall, pool_putCall]
      simp only [lentOf, hexec] at hb
      simp only [Executor.permitIn, hexec] at hh
      rw [hexec]
      cases hp : i.stage.holdsPermit with
      | false =>
          simp [hp] at hb hh ⊢
          omega
      | true =>
          simp only [hp, if_true, Option.some.injEq, true_and] at hb hh
          rw [keyOf] at hb
          split at hb
          · simp_all
            omega
          · simp_all
    · exact hqueued.nodup
    · intro key a
      have hm := hqueued.mem_iff key a
      rw [h₁.unit?_without, hactor, pool_putCall, hm]
      by_cases ha : a = actorOf c i
      · have hu := h₁.unit?
        rw [hactor] at hu
        cases hs : i.stage <;> simp [goneOf, ha, hs, hu]
      · have hgone : goneOf c i ≠ some a := by
          cases hs : i.stage <;> simp [goneOf, hs]
          exact fun he => ha he.symm
        simp only [hgone, ne_eq, not_false_eq_true, true_and, ha, if_false, reduceCtorEq]
        exact Iff.rfl
    · exact hqueued.busy
  rw [he]
  exact Sound.congr (w := (w.leavePool c.id i).putCall (c₁.without i.place)) rfl rfl rfl rfl hsound

/-- The call that an invocation has left. -/
theorem call?_detach_self (h : w.Queued none) (hi : w.Has c i) :
    ∃ c₁, Granted c c₁ ∧ c₁.invocation? i.place = some i ∧
      (w.detach c.id i).call? c.id = some (c₁.without i.place) := by
  obtain ⟨c₁, hgrant, h₁, he⟩ := detach_eq h hi
  refine ⟨c₁, hgrant, h₁.unit, ?_⟩
  have hput := call?_putCall_self (c := c₁.without i.place) h₁.call
  rw [TaskCall.id_without, hgrant.id_eq] at hput
  rw [he]
  exact hput

/-- Every other call when an invocation is given up. -/
theorem call?_detach_of_ne (h : w.Queued none) (hi : w.Has c i) {k : Nat} (hk : k ≠ c.id)
    (hd : w.call? k = some d) : ∃ d₁, Granted d d₁ ∧ (w.detach c.id i).call? k = some d₁ := by
  obtain ⟨c₁, hgrant, _, he⟩ := detach_eq h hi
  obtain ⟨d₁, hcall, hd₁⟩ := call?_leavePool h hi hd
  refine ⟨d₁, hd₁, ?_⟩
  have hput : ((w.leavePool c.id i).putCall (c₁.without i.place)).call? k =
      (w.leavePool c.id i).call? k :=
    call?_putCall_of_ne (by rw [TaskCall.id_without, hgrant.id_eq]; exact hk)
  rw [he]
  exact hput.trans hcall

/-- **What becomes of a world in which an invocation ends**: the invocation is given up, its result
is gathered, and the caller is woken when no other invocation is left. -/
theorem finish_eq (h : w.Queued none) (hi : w.Has c i) (ending : Ending) :
    ∃ c₁, Granted c c₁ ∧ c₁.invocation? i.place = some i ∧
      (w.detach c.id i).call? c.id = some (c₁.without i.place) ∧
      w.finish c.id i ending =
        let v := (w.detach c.id i).putCall
          (c₁.settle i (w.executor.resultOf i.agent i.serial i.startedAt w.now ending))
        if (c₁.without i.place).live.isEmpty then v.wake (.caller c.id) else v := by
  obtain ⟨c₁, hgrant, hunit, hcall⟩ := call?_detach_self h hi
  have hsteady := steady_detach w c.id i
  refine ⟨c₁, hgrant, hunit, hcall, ?_⟩
  simp only [World.finish, hcall, hsteady.executor, hsteady.now]
  rfl

/-- An invocation that ends leaves a sound world sound. -/
theorem Sound.finish (h : w.Sound) (hi : w.Has c i) (ending : Ending) :
    (w.finish c.id i ending).Sound := by
  obtain ⟨c₁, hgrant, _, hcall, he⟩ := finish_eq h.queued hi ending
  have htidy := (h.detach hi).listed.tidy _ (mem_calls_of_call? hcall)
  have hput := (h.detach hi).putCall (c := c₁.without i.place)
    (d := c₁.settle i (w.executor.resultOf i.agent i.serial i.startedAt w.now ending))
    (hgrant.id_eq ▸ hcall) rfl ⟨htidy.places_nodup, htidy.batches_nodup, htidy.pausing⟩
  rw [he]
  dsimp only
  split
  · exact Sound.congr (w := (w.detach c.id i).putCall _) rfl rfl rfl rfl hput
  · exact hput

end World

end AgentSwarm
