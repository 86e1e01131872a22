/-
**Nobody is forgotten.**

An invocation that does not wait in a queue is ready or waits for a time, and so is a caller without
live invocations; and whoever is ready or waits for a time is there and has a reason to.  Only
queues and calls that are not cancelled let an actor wait, so all actors of a cancelled call are
ready: this is why no time passes before it has returned.

In the midst of a turn the actor whose turn it is is in no list, so the invariant is stated with a
set of actors that are excused.

Main definitions:

* `AgentSwarm.Standing`, `AgentSwarm.World.standing?` — what an actor stands for;
* `AgentSwarm.World.Awake` — the invariant;
* `AgentSwarm.World.Away` — an actor neither is ready nor waits for a time.

Main results:

* `AgentSwarm.World.Awake.frame` — what the invariant depends on;
* `AgentSwarm.World.Turn.awake`, `AgentSwarm.World.Step.awake` — **every step keeps it**.
-/

import AgentSwarm.Proofs.Executor.Course

set_option relaxedAutoImplicit false
set_option autoImplicit false

namespace AgentSwarm

/-! ### What actors stand for -/

/-- What an actor stands for: a caller without live invocations, or an invocation. -/
inductive Standing where
  | caller (isCancelled isPausing : Bool)
  | unit (isCancelled : Bool) (stage : Stage)

namespace Standing

/-- Whether it may be ready. -/
def Runs (now : Nat) : Standing → Prop
  | .caller _ _ => True
  | .unit isCancelled stage => isCancelled = true ∨ stage.holdsPermit = true ∧
      (∀ endsAt ending, stage = .calling endsAt ending → endsAt ≤ now) ∨ stage = .fresh

/-- What it is once its call is cancelled. -/
def cancel : Standing → Standing
  | .caller _ isPausing => .caller true isPausing
  | .unit _ stage => .unit true stage

theorem runs_cancel (s : Standing) (now : Nat) : s.cancel.Runs now := by
  cases s with
  | caller isCancelled isPausing => trivial
  | unit isCancelled stage => exact .inl rfl

/-- Whether it may wait until a time. -/
def Sleeps (t : Nat) : Standing → Prop
  | .caller isCancelled isPausing => isCancelled = false ∧ isPausing = true
  | .unit isCancelled stage => isCancelled = false ∧
      (stage = .throttled ∨ ∃ ending, stage = .calling t ending)

/-- Whether it waits in a queue. -/
def Queues : Standing → Prop
  | .caller _ _ => False
  | .unit isCancelled stage => isCancelled = false ∧ stage = .queued

end Standing

namespace World

/-- What an actor stands for in a world. -/
def standing? (w : World) (a : Actor) : Option Standing :=
  (w.call? a.call).bind fun c =>
    match a with
    | .caller _ => if c.live = [] then some (.caller c.isCancelled c.isPausing) else none
    | .invocation _ place => (c.invocation? place).map fun i => .unit c.isCancelled i.stage

/-- **Nobody is forgotten, but for those who are excused**, and nobody is waited for in vain. -/
structure Awake (w : World) (excused : Actor → Prop) : Prop where
  nodup : (w.alarms.map Prod.snd ++ w.ready).Nodup
  ready : ∀ a ∈ w.ready, ∃ s, w.standing? a = some s ∧ s.Runs w.now
  alarms : ∀ t a, (t, a) ∈ w.alarms → w.now < t ∧ ∃ s, w.standing? a = some s ∧ s.Sleeps t
  awake : ∀ a s, w.standing? a = some s → ¬ excused a →
    a ∈ w.ready ∨ s.Queues ∨ ∃ t, (t, a) ∈ w.alarms

/-- An actor that neither is ready nor waits for a time. -/
structure Away (w : World) (a : Actor) : Prop where
  ready : a ∉ w.ready
  alarms : ∀ t, (t, a) ∉ w.alarms

variable {w v : World} {a b : Actor} {c d : TaskCall} {i : Invocation} {X Y : Actor → Prop}
  {s : Standing} {t : Nat}

theorem Has.standing? (hi : w.Has c i) :
    w.standing? (actorOf c i) = some (.unit c.isCancelled i.stage) := by
  simp [World.standing?, actorOf, Actor.call, hi.call, hi.unit]

theorem standing?_caller (hc : w.call? c.id = some c) (hlive : c.live = []) :
    w.standing? (.caller c.id) = some (.caller c.isCancelled c.isPausing) := by
  simp [standing?, Actor.call, hc, hlive]

/-- A call without live invocations has no other actor than its caller. -/
theorem standing?_eq_none {k : Nat} (place : Nat) (hc : w.call? k = some c) (hlive : c.live = []) :
    w.standing? (.invocation k place) = none := by
  simp [standing?, Actor.call, hc, TaskCall.invocation?, hlive]

theorem standing?_congr (h : v.calls = w.calls) (a : Actor) : v.standing? a = w.standing? a := by
  simp only [standing?, call?_congr h]

/-- What stands for nobody is in no list. -/
theorem Awake.away (h : w.Awake X) (ha : w.standing? a = none) : w.Away a where
  ready hmem := by
    obtain ⟨s, hs, _⟩ := h.ready a hmem
    rw [ha] at hs
    cases hs
  alarms t hmem := by
    obtain ⟨_, s, hs, _⟩ := h.alarms t a hmem
    rw [ha] at hs
    cases hs

/-- **What the invariant depends on**: who is ready or waits for a time, and what those stand for
who are not excused. -/
theorem Awake.frame (h : w.Awake X) (hn : v.now = w.now) (hr : v.ready = w.ready)
    (ha : v.alarms = w.alarms) (hs : ∀ a, ¬ Y a → v.standing? a = w.standing? a)
    (hready : ∀ a, Y a → a ∈ w.ready → ∃ s, v.standing? a = some s ∧ s.Runs w.now)
    (halarms : ∀ a, Y a → ∀ t, (t, a) ∉ w.alarms) : v.Awake fun a => X a ∨ Y a where
  nodup := by
    rw [hr, ha]
    exact h.nodup
  ready := by
    intro a hmem
    rw [hr] at hmem
    rw [hn]
    by_cases hy : Y a
    · exact hready a hy hmem
    · rw [hs a hy]
      exact h.ready a hmem
  alarms := by
    intro t a hmem
    rw [ha] at hmem
    rw [hn, hs a fun hy => halarms a hy t hmem]
    exact h.alarms t a hmem
  awake := by
    intro a s hstand hx
    rw [hs a fun hy => hx (.inr hy)] at hstand
    rw [hr, ha]
    exact h.awake a s hstand fun hx' => hx (.inl hx')

/-- Only calls, the time, and who is ready or waits for a time count. -/
theorem Awake.congr (h : w.Awake X) (hc : v.calls = w.calls) (hn : v.now = w.now)
    (hr : v.ready = w.ready) (ha : v.alarms = w.alarms) : v.Awake X := by
  have hframe := h.frame (Y := fun _ => False) hn hr ha (fun a _ => standing?_congr hc a)
    (fun _ hy => hy.elim) fun _ hy => hy.elim
  exact ⟨hframe.nodup, hframe.ready, hframe.alarms, fun a s hs hx =>
    hframe.awake a s hs fun hx' => hx (hx'.resolve_right id)⟩

/-- More actors may be excused. -/
theorem Awake.excuse (hXY : ∀ a, X a → Y a) (h : w.Awake X) : w.Awake Y :=
  ⟨h.nodup, h.ready, h.alarms, fun a s hs hy => h.awake a s hs fun hx => hy (hXY a hx)⟩

/-- Those who are excused and are somewhere need not be. -/
theorem Awake.fill (h : w.Awake X) (hx : ∀ a s, X a → ¬ Y a → w.standing? a = some s →
    a ∈ w.ready ∨ s.Queues ∨ ∃ t, (t, a) ∈ w.alarms) : w.Awake Y where
  nodup := h.nodup
  ready := h.ready
  alarms := h.alarms
  awake := by
    intro a s hs hy
    by_cases hxa : X a
    · exact hx a s hxa hy hs
    · exact h.awake a s hs hxa

/-! ### Who is ready and who waits for a time -/

/-- An actor is taken from the ready ones. -/
theorem Awake.rise (h : w.Awake X) (a : Actor) : (w.rise a).Awake fun b => X b ∨ b = a := by
  have hready : w.ready.Nodup := (List.nodup_append.1 h.nodup).2.1
  have hmem : ∀ b, b ∈ w.ready.erase a ↔ b ≠ a ∧ b ∈ w.ready := fun b => hready.mem_erase_iff
  refine ⟨?_, ?_, h.alarms, ?_⟩
  · exact h.nodup.sublist (List.erase_sublist.append_left _)
  · intro b hb
    exact h.ready b ((hmem b).1 hb).2
  · intro b s hs hx
    rcases h.awake b s hs fun hx' => hx (.inl hx') with hr | hrest
    · exact .inl ((hmem b).2 ⟨fun he => hx (.inr he), hr⟩)
    · exact .inr hrest

/-- A ready actor that goes on is away. -/
theorem Awake.away_rise (h : w.Awake X) (ha : a ∈ w.ready) : (w.rise a).Away a where
  ready := (List.nodup_append.1 h.nodup).2.1.not_mem_erase
  alarms _ ht :=
    (List.nodup_append.1 h.nodup).2.2 a (List.mem_map.2 ⟨_, ht, rfl⟩) a ha rfl

/-- An actor begins to wait for a time. -/
theorem Awake.sleepUntil (h : w.Awake X) (ha : w.Away a) (ht : w.now < t)
    (hs : w.standing? a = some s) (hsleeps : s.Sleeps t) :
    (w.sleepUntil t a).Awake fun b => X b ∧ b ≠ a := by
  have hmem : ∀ t' b, (t', b) ∈ (w.sleepUntil t a).alarms ↔
      (t', b) ∈ w.alarms ∨ t' = t ∧ b = a := by
    intro t' b
    simp [World.sleepUntil]
  refine ⟨?_, h.ready, ?_, ?_⟩
  · have hperm : ((w.sleepUntil t a).alarms.map Prod.snd ++ (w.sleepUntil t a).ready).Perm
        (a :: (w.alarms.map Prod.snd ++ w.ready)) := by
      simp only [World.sleepUntil, List.map_append, List.map_cons, List.map_nil, List.append_assoc]
      exact List.perm_middle
    refine hperm.nodup_iff.2 (List.nodup_cons.2 ⟨?_, h.nodup⟩)
    intro hmem
    rcases List.mem_append.1 hmem with hmem | hmem
    · obtain ⟨⟨t', _⟩, halarm, rfl⟩ := List.mem_map.1 hmem
      exact ha.alarms t' halarm
    · exact ha.ready hmem
  · intro t' b hb
    rcases (hmem t' b).1 hb with hb | ⟨rfl, rfl⟩
    · exact h.alarms t' b hb
    · exact ⟨ht, s, hs, hsleeps⟩
  · intro b s' hs' hx
    by_cases he : b = a
    · exact .inr (.inr ⟨t, (hmem t b).2 (.inr ⟨rfl, he⟩)⟩)
    · rcases h.awake b s' hs' fun hx' => hx ⟨hx', he⟩ with hr | hq | ⟨t', ht'⟩
      · exact .inl hr
      · exact .inr (.inl hq)
      · exact .inr (.inr ⟨t', (hmem t' b).2 (.inl ht')⟩)

/-- Actors become ready that are away. -/
theorem Awake.wakeAll {ready : List Actor} (as : List Actor) (h : w.Awake X)
    (hperm : ready.Perm (w.ready ++ as)) (has : as.Nodup) (haway : ∀ a ∈ as, w.Away a)
    (hruns : ∀ a ∈ as, ∃ s, w.standing? a = some s ∧ s.Runs w.now) :
    ({ w with ready } : World).Awake fun b => X b ∧ b ∉ as := by
  have hmem : ∀ b, b ∈ ready ↔ b ∈ w.ready ∨ b ∈ as := by
    intro b
    rw [hperm.mem_iff, List.mem_append]
  refine ⟨?_, ?_, h.alarms, ?_⟩
  · refine ((hperm.append_left _).nodup_iff).2 ?_
    rw [← List.append_assoc]
    refine List.nodup_append.2 ⟨h.nodup, has, ?_⟩
    rintro b hb b' hb' rfl
    rcases List.mem_append.1 hb with hb | hb
    · obtain ⟨⟨t, _⟩, ht, rfl⟩ := List.mem_map.1 hb
      exact (haway _ hb').alarms t ht
    · exact (haway b hb').ready hb
  · intro b hb
    rcases (hmem b).1 hb with hb | hb
    · exact h.ready b hb
    · exact hruns b hb
  · intro b s hs hx
    by_cases hb : b ∈ as
    · exact .inl ((hmem b).2 (.inr hb))
    · rcases h.awake b s hs fun hx' => hx ⟨hx', hb⟩ with hr | hrest
      · exact .inl ((hmem b).2 (.inl hr))
      · exact .inr hrest

theorem mem_ready_wake : b ∈ (w.wake a).ready ↔ b ∈ w.ready ∨ b = a := by
  simp only [wake, List.contains_iff_mem]
  split
  next hmem =>
      constructor
      · exact .inl
      · rintro (hb | rfl)
        · exact hb
        · exact hmem
  next => simp

/-- An actor is woken that does not wait for a time. -/
theorem Awake.wake (h : w.Awake X) (ha : ∀ t, (t, a) ∉ w.alarms) (hs : w.standing? a = some s)
    (hruns : s.Runs w.now) : (w.wake a).Awake fun b => X b ∧ b ≠ a := by
  by_cases hmem : a ∈ w.ready
  · have hsame : w.wake a = w := by simp [World.wake, hmem]
    rw [hsame]
    refine h.fill ?_
    intro b s' hx hy hs'
    by_cases he : b = a
    · exact .inl (he ▸ hmem)
    · exact absurd ⟨hx, he⟩ hy
  · have hwake : w.wake a = { w with ready := w.ready ++ [a] } := by simp [World.wake, hmem]
    rw [hwake]
    refine (h.wakeAll [a] (.refl _) (List.nodup_singleton a) ?_ ?_).excuse ?_
    · intro b hb
      obtain rfl := List.mem_singleton.1 hb
      exact ⟨hmem, ha⟩
    · intro b hb
      obtain rfl := List.mem_singleton.1 hb
      exact ⟨s, hs, hruns⟩
    · intro b hb
      simpa using hb

/-- An actor is taken from all lists. -/
theorem Awake.forget (h : w.Awake X) (a : Actor) :
    (w.forget a).Awake (fun b => X b ∨ b = a) ∧ (w.forget a).Away a := by
  have hready : ∀ b, b ∈ (w.forget a).ready ↔ b ∈ w.ready ∧ b ≠ a := by
    intro b
    simp [World.forget]
  have halarms : ∀ t b, (t, b) ∈ (w.forget a).alarms ↔ (t, b) ∈ w.alarms ∧ b ≠ a := by
    intro t b
    simp [World.forget]
  refine ⟨⟨?_, ?_, ?_, ?_⟩, ⟨?_, ?_⟩⟩
  · exact h.nodup.sublist ((List.filter_sublist.map _).append List.filter_sublist)
  · exact fun b hb => h.ready b ((hready b).1 hb).1
  · exact fun t b hb => h.alarms t b ((halarms t b).1 hb).1
  · intro b s hs hx
    have hne : b ≠ a := fun he => hx (.inr he)
    rcases h.awake b s hs fun hx' => hx (.inl hx') with hr | hq | ⟨t, ht⟩
    · exact .inl ((hready b).2 ⟨hr, hne⟩)
    · exact .inr (.inl hq)
    · exact .inr (.inr ⟨t, (halarms t b).2 ⟨ht, hne⟩⟩)
  · exact fun hb => ((hready a).1 hb).2 rfl
  · exact fun t ht => ((halarms t a).1 ht).2 rfl

/-! ### Changes of calls -/

/-- What an actor stands for after a call was written. -/
theorem standing?_putCall (hc : w.call? d.id = some c) (a : Actor) : (w.putCall d).standing? a =
    if a.call = d.id then
      match a with
      | .caller _ => if d.live = [] then some (.caller d.isCancelled d.isPausing) else none
      | .invocation _ place => (d.invocation? place).map fun i => .unit d.isCancelled i.stage
    else w.standing? a := by
  simp only [standing?, call?_putCall]
  split
  next ha =>
      rw [ha, hc]
      rfl
  next => rfl

/-- What the other invocations stand for after a version of the call was written that differs at one
place. -/
theorem Has.standing?_putCall (hi : w.Has c i) (hid : d.id = c.id)
    (hflag : d.isCancelled = c.isCancelled)
    (hother : ∀ q, q ≠ i.place → d.invocation? q = c.invocation? q) {k place : Nat}
    (hb : .invocation k place ≠ actorOf c i) :
    (w.putCall d).standing? (.invocation k place) = w.standing? (.invocation k place) := by
  rw [World.standing?_putCall (d := d) (hid ▸ hi.call)]
  split
  next hcall =>
      have hk : k = c.id := hcall.trans hid
      have hp : place ≠ i.place := by
        rintro rfl
        exact hb (by rw [actorOf, hk])
      dsimp only
      rw [World.standing?, Actor.call, hk, hi.call, Option.bind_some, hother place hp, hflag]
  next => rfl

/-- What the other actors stand for after an invocation was changed. -/
theorem Has.standing?_adjust {f : Invocation → Invocation} (hf : ∀ j, (f j).place = j.place)
    (hi : w.Has c i) (hb : b ≠ actorOf c i) :
    (w.putCall (c.adjust i.place f)).standing? b = w.standing? b := by
  cases b with
  | caller k =>
      rw [World.standing?_putCall (d := c.adjust i.place f) hi.call]
      split
      next hid =>
          have hk : k = c.id := hid
          simp [World.standing?, Actor.call, hk, hi.call, TaskCall.adjust]
      next => rfl
  | invocation k place =>
      refine hi.standing?_putCall (TaskCall.id_adjust ..) rfl (fun q hq => ?_) hb
      rw [TaskCall.invocation?_adjust hf, if_neg hq]

/-- What the other actors but the caller stand for after an invocation was taken out. -/
theorem Has.standing?_without (hi : w.Has c i) (hb : b ≠ actorOf c i) (hcaller : b ≠ .caller c.id) :
    (w.putCall (c.without i.place)).standing? b = w.standing? b := by
  cases b with
  | caller k =>
      have hne : k ≠ c.id := fun hk => hcaller (by rw [hk])
      rw [World.standing?_putCall (d := c.without i.place) hi.call]
      exact if_neg hne
  | invocation k place =>
      refine hi.standing?_putCall (TaskCall.id_without ..) rfl (fun q hq => ?_) hb
      rw [TaskCall.invocation?_without, if_neg hq]

/-- An invocation that is away may be changed. -/
theorem Awake.adjust {f : Invocation → Invocation} (hf : ∀ j, (f j).place = j.place)
    (hv : v.calls = (w.putCall (c.adjust i.place f)).calls) (hn : v.now = w.now)
    (hr : v.ready = w.ready) (hal : v.alarms = w.alarms) (hi : w.Has c i)
    (ha : w.Away (actorOf c i)) (h : w.Awake (· = actorOf c i)) : v.Awake (· = actorOf c i) := by
  refine (h.frame (Y := (· = actorOf c i)) hn hr hal ?_ ?_ ?_).excuse fun b hb => hb.elim id id
  · intro b hb
    rw [standing?_congr hv, hi.standing?_adjust hf hb]
  · rintro b rfl hmem
    exact absurd hmem ha.ready
  · rintro b rfl t
    exact ha.alarms t

/-- A call may be written that looks the same to actors. -/
theorem Awake.putCall (h : w.Awake X) (hc : w.call? d.id = some c) (hlive : d.live = c.live)
    (hcancelled : d.isCancelled = c.isCancelled) (hpausing : d.isPausing = c.isPausing) :
    (w.putCall d).Awake X := by
  have hs : ∀ a, (w.putCall d).standing? a = w.standing? a := by
    intro a
    rw [standing?_putCall hc]
    split
    next hid =>
        simp only [World.standing?, hid, hc, Option.bind_some, TaskCall.invocation?, hlive,
          hcancelled, hpausing]
    next => rfl
  exact (h.frame (v := w.putCall d) (Y := fun _ => False) rfl rfl rfl (fun a _ => hs a)
    (fun _ hy => hy.elim) fun _ hy => hy.elim).excuse fun b hb => hb.resolve_right id

/-! ### Moves -/

variable {A : BackendLaw} {w' : World} {seen : List Occurrence}

theorem Move.awake (hm : Move A a w seen w') (h : w.Awake (· = a)) (ha : w.Away a) :
    w'.Awake (· = a) ∧ w'.Away a := by
  cases hm with
  | start hi _ _ =>
      exact ⟨h.adjust (f := fun j => { j with startedAt := w.now }) (fun _ => rfl) rfl rfl rfl rfl
        hi ha, ⟨ha.ready, ha.alarms⟩⟩
  | take hi _ _ _ =>
      exact ⟨Awake.adjust (w := w) (f := fun j => { j with stage := .admitted }) (fun _ => rfl)
        rfl rfl rfl rfl hi ha h, ⟨ha.ready, ha.alarms⟩⟩
  | @send _ c i due response hi _ _ _ _ =>
      have hadjust : ∀ v : World, v.calls = (w.putCall (c.setStage i.place (.calling
          (w.now + (w.executor.curtail response).1) (w.executor.curtail response).2))).calls →
          v.now = w.now → v.ready = w.ready → v.alarms = w.alarms →
          v.Awake (· = actorOf c i) ∧ v.Away (actorOf c i) := by
        intro v hv hn hr hal
        refine ⟨h.adjust (f := fun j => { j with stage := (.calling
          (w.now + (w.executor.curtail response).1) (w.executor.curtail response).2) })
          (fun _ => rfl) hv hn hr hal hi ha, ?_, ?_⟩
        · rw [hr]
          exact ha.ready
        · rw [hal]
          exact ha.alarms
      cases due <;> exact hadjust _ rfl rfl rfl rfl
  | report hc _ => exact ⟨h.putCall (d := collect _) hc rfl rfl rfl, ⟨ha.ready, ha.alarms⟩⟩

/-- An invocation that leaves its pool may wake another one. -/
theorem Awake.leavePool (hq : w.Queued none) (hi : w.Has c i) (h : w.Awake X) :
    (w.leavePool c.id i).Awake X := by
  rcases leavePool_cases hq hi with ⟨pools, he⟩ | ⟨pools, d, j, hj, hs, _, he⟩
  · rw [he]
    exact h.congr rfl rfl rfl rfl
  · rw [he]
    have hstand := hj.standing?
    have hnone : ∀ t, (t, actorOf d j) ∉ w.alarms := by
      intro t ht
      obtain ⟨_, s, hs', hsleeps⟩ := h.alarms t _ ht
      obtain rfl := Option.some.inj (hstand.symm.trans hs')
      simp [Standing.Sleeps, hs] at hsleeps
    have hj' : ({ w with pools } : World).Has d j := ⟨hj.call, hj.unit⟩
    have hset := hj'.setStage .admitted
    have hframe : (({ w with pools } : World).putCall (d.setStage j.place .admitted)).Awake
        fun b => X b ∨ b = actorOf d j := by
      refine h.frame (Y := (· = actorOf d j)) rfl rfl rfl ?_ ?_ ?_
      · intro b hb
        exact hj'.standing?_adjust (f := fun i => { i with stage := .admitted }) (fun _ => rfl) hb
      · rintro b rfl _
        exact ⟨_, hset.standing?, .inr (.inl ⟨rfl, by simp⟩)⟩
      · rintro b rfl
        exact hnone
    refine (hframe.wake hnone hset.standing? (.inr (.inl ⟨rfl, by simp⟩))).excuse ?_
    rintro b ⟨hb, hne⟩
    exact hb.resolve_right hne

/-- An invocation is given up; its caller may have something to do then. -/
theorem Awake.detach (hq : w.Queued none) (hi : w.Has c i) (h : w.Awake X) :
    (w.detach c.id i).Awake (fun b => X b ∨ b = .caller c.id) ∧
      (w.detach c.id i).Away (.caller c.id) ∧ (w.detach c.id i).standing? (actorOf c i) = none := by
  obtain ⟨c₁, hgrant, h₁, he⟩ := detach_eq hq hi
  have hactor : actorOf c₁ i = actorOf c i := by rw [actorOf, actorOf, hgrant.id_eq]
  have hcall : (w.leavePool c.id i).call? c.id = some c₁ := hgrant.id_eq ▸ h₁.call
  have hleave := h.leavePool hq hi
  have hcaller : (w.leavePool c.id i).Away (.caller c.id) := by
    refine hleave.away ?_
    have hne : c₁.live ≠ [] := List.ne_nil_of_mem h₁.mem_live
    simp [World.standing?, Actor.call, hcall, hne]
  obtain ⟨hforget, haway⟩ := hleave.forget (actorOf c i)
  have hcaller' : ((w.leavePool c.id i).forget (actorOf c i)).Away (.caller c.id) := by
    constructor
    · intro hmem
      exact hcaller.ready (List.mem_filter.1 hmem).1
    · intro t hmem
      exact hcaller.alarms t (List.mem_filter.1 hmem).1
  have hgone : (w.detach c.id i).standing? (actorOf c i) = none := by
    rw [he]
    have hstanding := standing?_putCall (w := w.leavePool c.id i) (d := c₁.without i.place)
      (c := c₁) h₁.call (actorOf c i)
    refine hstanding.trans ?_
    rw [if_pos (by rw [TaskCall.id_without, hgrant.id_eq]; rfl)]
    simp [actorOf, TaskCall.invocation?_without]
  -- the caller may begin to stand for the call, and the invocation no longer stands for anything
  have hframe : (w.detach c.id i).Awake fun b =>
      (X b ∨ b = actorOf c i) ∨ b = actorOf c i ∨ b = .caller c.id := by
    rw [he]
    refine hforget.frame (v := ((w.leavePool c.id i).putCall (c₁.without i.place)).forget
      (actorOf c i)) (Y := fun b => b = actorOf c i ∨ b = .caller c.id) rfl rfl rfl ?_ ?_ ?_
    · intro b hb
      exact h₁.standing?_without (fun hbi => hb (.inl (hactor ▸ hbi)))
        fun hbc => hb (.inr (hgrant.id_eq ▸ hbc))
    · rintro b (rfl | rfl) hmem
      · exact absurd hmem haway.ready
      · exact absurd hmem hcaller'.ready
    · rintro b (rfl | rfl)
      · exact haway.alarms
      · exact hcaller'.alarms
  refine ⟨hframe.fill ?_, ?_, hgone⟩
  · rintro b s hb hy hs
    rcases hb with (hb | rfl) | rfl | rfl
    · exact absurd (.inl hb) hy
    · rw [hgone] at hs
      cases hs
    · rw [hgone] at hs
      cases hs
    · exact absurd (.inr rfl) hy
  · rw [he]
    exact ⟨hcaller'.ready, hcaller'.alarms⟩

/-- A call without live invocations whose caller is away has all its actors away. -/
theorem Awake.away_of_call (h : w.Awake X) (hc : w.call? c.id = some c) (hlive : c.live = [])
    (ha : w.Away (.caller c.id)) (hb : b.call = c.id) : w.Away b := by
  cases b with
  | caller k =>
      rw [Actor.call] at hb
      rwa [hb]
  | invocation k place =>
      rw [Actor.call] at hb
      rw [hb]
      exact h.away (standing?_eq_none _ hc hlive)

/-- A call whose actors are all away may be written or dropped. -/
theorem Awake.replace {k : Nat} (h : w.Awake X) (hX : ∀ b, X b → b.call = k) (hn : v.now = w.now)
    (hr : v.ready = w.ready) (hal : v.alarms = w.alarms)
    (hcall : ∀ j, j ≠ k → v.call? j = w.call? j) (haway : ∀ b : Actor, b.call = k → w.Away b) :
    v.Awake fun b => b.call = k := by
  refine (h.frame (Y := fun b => b.call = k) hn hr hal ?_ ?_ ?_).excuse fun b hb =>
    hb.elim (hX b) id
  · intro b hb
    simp only [standing?, hcall _ hb]
  · intro b hb hmem
    exact absurd hmem (haway b hb).ready
  · intro b hb
    exact (haway b hb).alarms

/-- A call without live invocations whose caller is away may be dropped. -/
theorem Awake.dropCall (h : w.Awake (· = .caller c.id)) (ha : w.Away (.caller c.id))
    (hc : w.call? c.id = some c) (hlive : c.live = []) :
    (w.dropCall c.id).Awake fun _ => False := by
  have hframe : (w.dropCall c.id).Awake fun b => b.call = c.id := by
    refine h.replace ?_ rfl rfl rfl ?_ fun b hb => h.away_of_call hc hlive ha hb
    · rintro b rfl
      rfl
    · intro j hj
      rw [call?_dropCall, if_neg hj]
  refine hframe.fill ?_
  intro b s hb _ hsb
  simp [standing?, hb, call?_dropCall] at hsb

/-- Who has to wait for a quota waits for a later time. -/
theorem lt_of_checkQuota {partition : String} {time : Nat}
    (h : w.checkQuota partition = .error time) : w.now < time := by
  simp only [checkQuota] at h
  cases hq : w.executor.quotaOf partition with
  | none => simp [hq] at h
  | some q =>
      simp only [hq] at h
      split at h
      · cases h
      next retry hretry =>
          simp only [Except.error.injEq] at h
          simp only [Quota.check] at hretry
          split at hretry
          · cases hretry
          next hlate =>
              simp only [Except.error.injEq] at hretry
              simp only [Duration.ceilMillis] at h
              omega

/-- The actors that stand for a call: its live invocations, or else its caller. -/
def actors (c : TaskCall) : List Actor :=
  if c.live.isEmpty then [.caller c.id] else c.live.map (actorOf c)

theorem nodup_actors (hn : (c.live.map (·.place)).Nodup) : (actors c).Nodup := by
  rw [actors]
  split
  · exact List.nodup_singleton _
  · have hmap : c.live.map (actorOf c) = (c.live.map (·.place)).map (.invocation c.id) := by
      rw [List.map_map]
      rfl
    rw [hmap]
    exact hn.map fun _ _ he => (Actor.invocation.inj he).2

/-- The actors of a call stand for its caller, or for a live invocation of it. -/
theorem standing?_of_mem_actors (hc : w.call? c.id = some c) (hn : (c.live.map (·.place)).Nodup)
    (hb : b ∈ actors c) : b.call = c.id ∧
      (w.standing? b = some (.caller c.isCancelled c.isPausing) ∨
        ∃ i ∈ c.live, w.standing? b = some (.unit c.isCancelled i.stage)) := by
  rw [actors] at hb
  split at hb
  next hempty =>
      obtain rfl := List.mem_singleton.1 hb
      exact ⟨rfl, .inl (standing?_caller hc (List.isEmpty_iff.1 hempty))⟩
  next =>
      obtain ⟨i, hi, rfl⟩ := List.mem_map.1 hb
      exact ⟨rfl, .inr ⟨i, hi, Has.standing? ⟨hc, TaskCall.invocation?_of_mem hn hi⟩⟩⟩

/-- No other actor of a call stands for anything. -/
theorem mem_actors_of_standing? (hc : w.call? c.id = some c) (hb : b.call = c.id)
    (hs : w.standing? b = some s) : b ∈ actors c := by
  simp only [standing?, hb, hc, Option.bind_some] at hs
  cases b with
  | caller k =>
      rw [Actor.call] at hb
      obtain ⟨hlive, _⟩ := Option.ite_none_right_eq_some.1 hs
      simp [actors, hlive, hb]
  | invocation k place =>
      rw [Actor.call] at hb
      obtain ⟨i, hi, _⟩ := Option.map_eq_some_iff.1 hs
      obtain rfl := TaskCall.place_of_invocation? hi
      have hmem := TaskCall.mem_live_of_invocation? hi
      have hempty : c.live.isEmpty = false := by
        rw [List.isEmpty_eq_false_iff]
        exact List.ne_nil_of_mem hmem
      rw [actors, hempty, hb]
      exact List.mem_map.2 ⟨i, hmem, rfl⟩

/-- The next batch is dispatched, and its invocations are ready, or else its caller. -/
theorem Awake.dispatch {batch : List Nat} {rest : List (List Nat)} (hs : w.Sound)
    (h : w.Awake (· = .caller c.id)) (ha : w.Away (.caller c.id)) (hc : w.call? c.id = some c)
    (hlive : c.live = []) (hrem : c.remaining = batch :: rest) :
    (w.dispatch c batch rest).1.Awake fun _ => False := by
  have hbatch := (hs.listed.tidy c (mem_calls_of_call? hc)).batches_nodup batch (by simp [hrem])
  obtain ⟨hfresh, hplaces⟩ := c.live_openNext w.now w.nextSerial batch rest
  generalize hd : c.openNext w.now w.nextSerial batch rest = d at hfresh hplaces
  have hid : d.id = c.id := by rw [← hd]; rfl
  have hnodup := hbatch.sublist hplaces
  have hdcall : (w.putCall d).call? d.id = some d := call?_putCall_self (by rw [hid]; exact hc)
  have haway : ∀ b : Actor, b.call = d.id → w.Away b :=
    fun b hb => h.away_of_call hc hlive ha (hb.trans hid)
  have hframe : (w.putCall d).Awake fun b => b.call = d.id :=
    h.replace (fun b hb => by rw [hb, hid]; rfl) rfl rfl rfl
      (fun j hj => call?_putCall_of_ne hj) haway
  have hready : (w.dispatch c batch rest).1.ready.Perm ((w.putCall d).ready ++ actors d) := by
    have he : (w.dispatch c batch rest).1.ready = if d.live.isEmpty then .caller c.id :: w.ready
        else w.ready ++ d.live.map fun i => .invocation c.id i.place := by
      rw [← hd]
      rfl
    rw [he, actors, ← hid]
    split
    · exact (List.perm_append_singleton _ _).symm
    · exact .refl _
  -- all who stand for the call from now on are woken
  have hwoken := hframe.wakeAll (actors d) hready (nodup_actors hnodup) ?_ ?_
  · have hall := hwoken.fill (Y := fun _ => False) ?_
    · exact hall.congr (by rw [← hd]; rfl) rfl rfl rfl
    rintro b s ⟨hb, hnot⟩ _ hstand
    exact absurd (mem_actors_of_standing? hdcall hb hstand) hnot
  · intro b hb
    obtain ⟨hready, halarms⟩ := haway b (standing?_of_mem_actors hdcall hnodup hb).1
    exact ⟨hready, halarms⟩
  · intro b hb
    obtain ⟨_, hstand | ⟨i, hi, hstand⟩⟩ := standing?_of_mem_actors hdcall hnodup hb
    · exact ⟨_, hstand, trivial⟩
    · exact ⟨_, hstand, .inr (.inr (hfresh i hi))⟩

/-- An invocation ends, and its caller is woken when no other is left. -/
theorem Awake.finish (hq : w.Queued none) (hi : w.Has c i) (h : w.Awake (· = actorOf c i))
    (ending : Ending) : (w.finish c.id i ending).Awake fun _ => False := by
  obtain ⟨hdetach, hcaller, hgone⟩ := h.detach hq hi
  obtain ⟨c₁, hgrant, _, hcall, he⟩ := finish_eq hq hi ending
  generalize hd : c₁.settle i (w.executor.resultOf i.agent i.serial i.startedAt w.now ending) = d
    at he
  have hid : d.id = c.id := by rw [← hd]; exact hgrant.id_eq
  have hlive : d.live = (c₁.without i.place).live := by rw [← hd]; rfl
  have hput : ((w.detach c.id i).putCall d).Awake _ := hdetach.putCall (d := d)
    (c := c₁.without i.place) (by rw [hid]; exact hcall) hlive (by rw [← hd]; rfl)
    (by rw [← hd]; rfl)
  have hdcall : ((w.detach c.id i).putCall d).call? c.id = some d := by
    rw [← hid]
    exact call?_putCall_self (by rw [hid]; exact hcall)
  have hnone : ((w.detach c.id i).putCall d).standing? (actorOf c i) = none := by
    rw [standing?_putCall (c := c₁.without i.place) (by rw [hid]; exact hcall),
      if_pos (by rw [hid]; rfl)]
    simp only [standing?, actorOf, Actor.call, hcall, Option.bind_some] at hgone
    simpa [actorOf, TaskCall.invocation?, hlive] using hgone
  rw [he]
  dsimp only
  cases hempty : (c₁.without i.place).live.isEmpty with
  | true =>
      have hnil : d.live = [] := by
        rw [hlive]
        exact List.isEmpty_iff.1 hempty
      have hstand : ((w.detach c.id i).putCall d).standing? (.caller c.id) =
          some (.caller d.isCancelled d.isPausing) := by
        simp [standing?, Actor.call, hdcall, hnil]
      -- no invocation is left, and the caller is woken
      rw [if_pos rfl]
      refine (hput.wake hcaller.alarms hstand trivial).fill ?_
      rintro b s ⟨rfl | rfl, hne⟩ _ hs
      · change ((w.detach c.id i).putCall d).standing? _ = some s at hs
        rw [hnone] at hs
        cases hs
      · exact absurd rfl hne
  | false =>
      -- another invocation is left, so the caller stands for nothing yet
      rw [if_neg (by simp)]
      refine hput.fill ?_
      rintro b s (rfl | rfl) _ hs
      · rw [hnone] at hs
        cases hs
      · have hne : d.live ≠ [] := by
          rw [hlive]
          intro hnil
          simp [hnil] at hempty
        simp [standing?, Actor.call, hdcall, hne] at hs

theorem LastMove.awake (hm : LastMove a w seen w') (hs : w.Sound) (h : w.Awake (· = a))
    (ha : w.Away a) : w'.Awake fun _ => False := by
  cases hm with
  | @enqueue _ c i hi hc _ _ =>
      have hadjust := Awake.adjust (w := w) (v := (w.putPool (w.keyOf i) { w.pool (w.keyOf i) with
          waiting := (w.pool (w.keyOf i)).waiting ++ [actorOf c i] }).putCall
            (c.setStage i.place .queued)) (f := fun i => { i with stage := .queued })
        (fun _ => rfl) rfl rfl rfl rfl hi ha h
      refine hadjust.fill ?_
      rintro b s rfl _ hb
      have hstand := (hi.setStage .queued).standing?
      obtain rfl := Option.some.inj (hb.symm.trans hstand)
      exact .inr (.inl ⟨hc, rfl⟩)
  | @throttle _ c i time hi hc _ hq =>
      have hadjust := Awake.adjust (w := w) (v := w.putCall (c.setStage i.place .throttled))
        (f := fun i => { i with stage := .throttled }) (fun _ => rfl) rfl rfl rfl rfl hi ha h
      have hsleep := hadjust.sleepUntil (t := time) ⟨ha.ready, ha.alarms⟩ (lt_of_checkQuota hq)
        (hi.setStage .throttled).standing? ⟨hc, .inl rfl⟩
      exact hsleep.excuse fun b hb => hb.2 hb.1
  | @await _ c i endsAt ending hi hc hcalling hlt =>
      have hsleep := h.sleepUntil ha hlt hi.standing? ⟨hc, .inr ⟨ending, hcalling⟩⟩
      exact hsleep.excuse fun b hb => hb.2 hb.1
  | finish hi _ => exact h.finish hs.queued hi _
  | @pause _ c hc hlive _ _ hp =>
      simp only [pauses, Bool.and_eq_true, Bool.not_eq_true', Duration.isZero, beq_eq_false_iff_ne,
        ne_eq, decide_eq_true_eq] at hp
      have hframe : (w.putCall { c with isPausing := true }).Awake fun b => b.call = c.id :=
        h.replace (fun b hb => hb ▸ rfl) rfl rfl rfl
          (fun j hj => call?_putCall_of_ne (c := { c with isPausing := true }) hj)
          fun b hb => h.away_of_call hc hlive ha hb
      have hput := call?_putCall_self (c := { c with isPausing := true }) hc
      have hsleep := hframe.sleepUntil (a := .caller c.id)
        (t := w.now + w.executor.strategy.pause.ceilMillis) ⟨ha.ready, ha.alarms⟩
        (by
          have := hp.1.1.2
          simp only [now_putCall, Duration.ceilMillis]
          omega)
        (standing?_caller (c := { c with isPausing := true }) hput hlive) ⟨hp.1.2, rfl⟩
      refine hsleep.fill ?_
      rintro b s ⟨hbc, hne⟩ _ hsb
      change (w.putCall { c with isPausing := true }).standing? b = some s at hsb
      cases b with
      | caller k =>
          rw [Actor.call] at hbc
          exact absurd (by rw [hbc]) hne
      | invocation k place =>
          rw [Actor.call] at hbc
          rw [hbc, standing?_eq_none _ hput hlive] at hsb
          cases hsb
  | dispatch hc hlive _ hrem _ => exact h.dispatch hs ha hc hlive hrem
  | leave hc hlive _ _ => exact h.dropCall ha hc hlive

theorem Acts.awake (hacts : Acts A a w seen w') (hs : w.Sound) (h : w.Awake (· = a))
    (ha : w.Away a) : w'.Awake fun _ => False := by
  induction hacts with
  | last hm => exact hm.awake hs h ha
  | move hm _ ih =>
      obtain ⟨h', ha'⟩ := hm.awake h ha
      exact ih (hm.sound hs) h' ha'

/-- **A turn keeps everyone awake.**  An actor that is ready always has something to do. -/
theorem Turn.awake (hs : w.Sound) (h : w.Awake fun _ => False) (ha : a ∈ w.ready)
    (ht : Turn A a (w.rise a) seen w') : w'.Awake fun _ => False := by
  cases ht with
  | idle hidle =>
      -- whoever is ready may run, and whoever has nothing to do may not
      obtain ⟨s, hs, hruns⟩ := h.ready a ha
      cases a with
      | caller k =>
          obtain ⟨c, hc, hc'⟩ := Option.bind_eq_some_iff.1 hs
          rw [Option.ite_none_right_eq_some] at hc'
          exact absurd hc'.1 (hidle.caller k c rfl hc)
      | invocation k place =>
          obtain ⟨c, hc, hunit⟩ := Option.bind_eq_some_iff.1 hs
          obtain ⟨i, hi, rfl⟩ := Option.map_eq_some_iff.1 hunit
          obtain rfl := TaskCall.place_of_invocation? hi
          obtain rfl : c.id = k := id_of_call? hc
          obtain ⟨hcancelled, hstage⟩ := hidle.unit c i ⟨hc, hi⟩ rfl
          rcases hruns with hcancelled' | ⟨hpermit, hdue⟩ | hfresh
          · rw [hcancelled] at hcancelled'
            cases hcancelled'
          · rcases hstage with hq | ⟨endsAt, ending, hcalling, hlt⟩
            · rw [hq] at hpermit
              cases hpermit
            · exact absurd (hdue endsAt ending hcalling) (Nat.not_le_of_lt hlt)
          · rcases hstage with hq | ⟨endsAt, ending, hcalling, _⟩
            · rw [hq] at hfresh
              cases hfresh
            · rw [hcalling] at hfresh
              cases hfresh
  | acts hacts =>
      exact hacts.awake (hs.rise a) ((h.rise a).excuse fun b hb => hb.resolve_left id)
        (h.away_rise ha)

/-! ### Other steps -/

/-- A call begins with its caller ready. -/
theorem Awake.beginCall (hs : w.Sound) (h : w.Awake fun _ => False) (agents : List Agent)
    (task : Task) (prompts : PromptBuilder) :
    (w.beginCall agents task prompts).Awake fun _ => False := by
  have hnew := hs.listed.call?_nextCall
  have hself := hs.listed.call?_beginCall_self agents task prompts
  have haway : ∀ b : Actor, b.call = w.nextCall → w.Away b := by
    intro b hb
    exact h.away (by simp [standing?, hb, hnew])
  have hframe : ({ w with
      calls := w.calls ++ [newCall w agents task prompts], nextCall := w.nextCall + 1 } : World).Awake
      fun b => b.call = w.nextCall :=
    h.replace (fun _ hx => hx.elim) rfl rfl rfl
      (fun j hj => call?_beginCall w agents task prompts hj) haway
  have hstand := standing?_caller (w := { w with
      calls := w.calls ++ [newCall w agents task prompts], nextCall := w.nextCall + 1 })
    (c := newCall w agents task prompts) hself rfl
  refine (hframe.wake (haway _ rfl).alarms hstand trivial).fill ?_
  rintro b s ⟨hbc, hne⟩ _ hsb
  cases b with
  | caller k =>
      rw [Actor.call] at hbc
      exact absurd (by rw [hbc]; rfl) hne
  | invocation k place =>
      rw [Actor.call] at hbc
      have hnone := standing?_eq_none place hself rfl
      rw [← hbc] at hnone
      exact absurd (hsb.symm.trans hnone) (by simp)

/-- Time passes to the first alarms. -/
theorem Awake.passTo (h : w.Awake fun _ => False) (hready : w.ready = []) (time : Nat) :
    (w.passTo time).Awake fun _ => False := by
  have hmem : ∀ a, a ∈ (w.passTo time).ready ↔ ∃ t, (t, a) ∈ w.alarms ∧ t ≤ time := by
    intro a
    simp [World.passTo, hready]
  have hmem' : ∀ t a, (t, a) ∈ (w.passTo time).alarms ↔ (t, a) ∈ w.alarms ∧ time < t := by
    intro t a
    simp [World.passTo]
  have hstand : ∀ a, (w.passTo time).standing? a = w.standing? a := standing?_congr rfl
  refine ⟨?_, ?_, ?_, ?_⟩
  · have hperm : (((w.alarms.filter fun alarm => !decide (alarm.1 ≤ time)) ++
        w.alarms.filter fun alarm => decide (alarm.1 ≤ time)).map Prod.snd).Perm
        (w.alarms.map Prod.snd) := by
      refine List.Perm.map _ ?_
      have hsplit := List.filter_append_perm (fun alarm : Nat × Actor => !decide (alarm.1 ≤ time))
        w.alarms
      simpa using hsplit
    have hnodup := hperm.nodup_iff.2 (List.nodup_append.1 h.nodup).1
    rw [List.map_append] at hnodup
    simpa only [World.passTo, hready, List.nil_append] using hnodup
  · intro a ha
    obtain ⟨t, ht, hle'⟩ := (hmem a).1 ha
    obtain ⟨_, s, hs, hsleeps⟩ := h.alarms t a ht
    refine ⟨s, (hstand a).trans hs, ?_⟩
    cases s with
    | caller isCancelled isPausing => trivial
    | unit isCancelled stage =>
        rcases hsleeps.2 with rfl | ⟨ending, rfl⟩
        · exact .inr (.inl ⟨rfl, by simp⟩)
        · refine .inr (.inl ⟨rfl, ?_⟩)
          intro endsAt ending' he
          obtain ⟨rfl, _⟩ := Stage.calling.inj he
          exact hle'
  · intro t a ha
    obtain ⟨ht, hlt⟩ := (hmem' t a).1 ha
    obtain ⟨_, s, hs, hsleeps⟩ := h.alarms t a ht
    exact ⟨hlt, s, (hstand a).trans hs, hsleeps⟩
  · intro a s hs _
    rcases h.awake a s ((hstand a).symm.trans hs) id with hr | hq | ⟨t, ht⟩
    · rw [hready] at hr
      cases hr
    · exact .inr (.inl hq)
    · by_cases hle' : t ≤ time
      · exact .inl ((hmem a).2 ⟨t, ht, hle'⟩)
      · exact .inr (.inr ⟨t, (hmem' t a).2 ⟨ht, by omega⟩⟩)

/-- Several actors are roused: who is ready, and who waits for a time. -/
theorem fold_rouse (as : List Actor) (w : World)
    (h : (w.alarms.map Prod.snd ++ w.ready).Nodup) :
    (as.foldl World.rouse w).calls = w.calls ∧ (as.foldl World.rouse w).now = w.now ∧
      ((as.foldl World.rouse w).alarms.map Prod.snd ++ (as.foldl World.rouse w).ready).Nodup ∧
      (∀ b, b ∈ (as.foldl World.rouse w).ready ↔ b ∈ w.ready ∨ b ∈ as) ∧
      ∀ t b, (t, b) ∈ (as.foldl World.rouse w).alarms ↔ (t, b) ∈ w.alarms ∧ b ∉ as := by
  induction as generalizing w with
  | nil => simp [h]
  | cons a rest ih =>
      have hready : ∀ b, b ∈ (w.rouse a).ready ↔ b ∈ w.ready ∨ b = a := fun _ => mem_ready_wake
      have halarms : ∀ t b, (t, b) ∈ (w.rouse a).alarms ↔ (t, b) ∈ w.alarms ∧ b ≠ a := by
        intro t b
        simp [World.rouse, wake]
      have hnodup : ((w.rouse a).alarms.map Prod.snd ++ (w.rouse a).ready).Nodup := by
        obtain ⟨hal, hr, hdisjoint⟩ := List.nodup_append.1 h
        refine List.nodup_append.2 ⟨hal.sublist (List.filter_sublist.map _), ?_, ?_⟩
        · simp only [World.rouse, wake, List.contains_iff_mem]
          split
          · exact hr
          next hnot =>
              refine List.nodup_append.2 ⟨hr, List.nodup_singleton _, ?_⟩
              rintro b hb b' hb' rfl
              exact hnot (List.mem_singleton.1 hb' ▸ hb)
        · rintro b hb b' hb' rfl
          obtain ⟨⟨t, _⟩, ht, rfl⟩ := List.mem_map.1 hb
          obtain ⟨ht, hne⟩ := (halarms t _).1 ht
          rcases (hready _).1 hb' with hb' | he
          · exact hdisjoint _ (List.mem_map.2 ⟨_, ht, rfl⟩) _ hb' rfl
          · exact hne he
      obtain ⟨hcalls, hnow, hnodup', hready', halarms'⟩ := ih (w.rouse a) hnodup
      rw [List.foldl_cons]
      refine ⟨hcalls, hnow, hnodup', ?_, ?_⟩
      · intro b
        rw [hready', hready, List.mem_cons, or_assoc]
      · intro t b
        rw [halarms', halarms, List.mem_cons, not_or, and_assoc]

/-- What actors stand for when their call has its flag. -/
theorem standing?_flag (hc : w.call? c.id = some c) (b : Actor) :
    (w.putCall { c with isCancelled := true }).standing? b =
      if b.call = c.id then (w.standing? b).map Standing.cancel else w.standing? b := by
  rw [standing?_putCall (d := { c with isCancelled := true }) hc]
  split
  next hb =>
      simp only [World.standing?, hb, hc, Option.bind_some]
      cases b with
      | caller k => simp [Standing.cancel]
      | invocation k place =>
          simp only [TaskCall.invocation?, Option.map_map]
          rfl
  next => rfl

/-- Whoever is roused stands for the call. -/
theorem standing?_of_mem_roused (hc : w.call? c.id = some c) (htidy : c.Tidy) (hb : b ∈ roused c) :
    b.call = c.id ∧ ∃ s, w.standing? b = some s := by
  rcases List.mem_append.1 hb with hb | hb
  · obtain ⟨i, hi, rfl⟩ := List.mem_map.1 hb
    exact ⟨rfl, _, Has.standing? ⟨hc, TaskCall.invocation?_of_mem htidy.places_nodup hi⟩⟩
  · split at hb
    next hp =>
        obtain rfl := List.mem_singleton.1 hb
        exact ⟨rfl, _, standing?_caller hc (htidy.pausing hp)⟩
    next => cases hb

/-- Whoever stands for the call is roused, but for a caller that does not pause. -/
theorem mem_roused_of_standing? (hc : w.call? c.id = some c) (hb : b.call = c.id)
    (hs : w.standing? b = some s) : b ∈ roused c ∨ s = .caller c.isCancelled false := by
  simp only [standing?, hb, hc, Option.bind_some] at hs
  cases b with
  | caller k =>
      rw [Actor.call] at hb
      obtain ⟨_, hs⟩ := Option.ite_none_right_eq_some.1 hs
      cases hp : c.isPausing with
      | true => exact .inl (by simp [roused, hp, hb])
      | false => exact .inr (hp ▸ (Option.some.inj hs).symm)
  | invocation k place =>
      rw [Actor.call] at hb
      obtain ⟨i, hi, _⟩ := Option.map_eq_some_iff.1 hs
      obtain rfl := TaskCall.place_of_invocation? hi
      refine .inl (List.mem_append_left _ (List.mem_map.2 ⟨i, ?_, by rw [actorOf, hb]⟩))
      exact TaskCall.mem_live_of_invocation? hi

/-- **All actors of a call that is cancelled are ready.** -/
theorem Awake.cancelCall (hs : w.Sound) (h : w.Awake fun _ => False)
    (hc : w.call? c.id = some c) : (w.cancelCall c).Awake fun _ => False := by
  have htidy := hs.listed.tidy c (mem_calls_of_call? hc)
  obtain ⟨hcalls, hnow, hnodup, hready, halarms⟩ :=
    fold_rouse (roused c) (w.putCall { c with isCancelled := true }) h.nodup
  rw [cancelCall_eq]
  have hstand : ∀ b, ((roused c).foldl World.rouse
      (w.putCall { c with isCancelled := true })).standing? b =
        if b.call = c.id then (w.standing? b).map Standing.cancel else w.standing? b := by
    intro b
    rw [standing?_congr hcalls, standing?_flag hc]
  refine ⟨hnodup, ?_, ?_, ?_⟩
  · intro b hb
    rw [hstand b, hnow]
    have hold : ∃ s, w.standing? b = some s ∧ (b.call = c.id ∨ s.Runs w.now) := by
      rcases (hready b).1 hb with hb | hb
      · obtain ⟨s, hs, hruns⟩ := h.ready b hb
        exact ⟨s, hs, .inr hruns⟩
      · obtain ⟨hid, s, hs⟩ := standing?_of_mem_roused hc htidy hb
        exact ⟨s, hs, .inl hid⟩
    obtain ⟨s, hs, hruns⟩ := hold
    by_cases hid : b.call = c.id
    · exact ⟨s.cancel, by rw [if_pos hid, hs]; rfl, s.runs_cancel _⟩
    · exact ⟨s, by rw [if_neg hid, hs], hruns.resolve_left hid⟩
  · intro t b hb
    obtain ⟨hb, hnot⟩ := (halarms t b).1 hb
    obtain ⟨hlt, s, hs, hsleeps⟩ := h.alarms t b hb
    rw [hstand b, hnow]
    by_cases hid : b.call = c.id
    · rcases mem_roused_of_standing? hc hid hs with hmem | rfl
      · exact absurd hmem hnot
      · cases hsleeps.2
    · exact ⟨hlt, s, by rw [if_neg hid, hs], hsleeps⟩
  · intro b s hs _
    rw [hstand b] at hs
    by_cases hid : b.call = c.id
    · rw [if_pos hid] at hs
      obtain ⟨s', hs', rfl⟩ := Option.map_eq_some_iff.1 hs
      refine .inl ((hready b).2 ?_)
      rcases mem_roused_of_standing? hc hid hs' with hmem | rfl
      · exact .inr hmem
      · -- a caller that does not pause can only be ready
        rcases h.awake b _ hs' id with hr | hq | ⟨t, ht⟩
        · exact .inl hr
        · cases hq
        · obtain ⟨_, s'', hs'', hsleeps⟩ := h.alarms t b ht
          obtain rfl := Option.some.inj (hs'.symm.trans hs'')
          cases hsleeps.2
    · rw [if_neg hid] at hs
      rcases h.awake b s hs id with hr | hq | ⟨t, ht⟩
      · exact .inl ((hready b).2 (.inl hr))
      · exact .inr (.inl hq)
      · refine .inr (.inr ⟨t, (halarms t b).2 ⟨ht, fun hb => hid ?_⟩⟩)
        exact (standing?_of_mem_roused hc htidy hb).1

/-- An abandoned call leaves nobody behind. -/
theorem Awake.abandonCall (hs : w.Sound) (h : w.Awake fun _ => False)
    (hc : w.call? c.id = some c) : (w.abandonCall c).1.Awake fun _ => False := by
  obtain ⟨hsound, hawake, d, hd, hlive⟩ := fold_abandonInvocation
    (P := fun v => v.Awake (· = .caller c.id))
    (fun v e i hv hawake hi hid =>
      (hawake.detach hv.queued hi).1.excuse fun b hb => hb.elim id fun he => hid ▸ he)
    (c.live.map (·.place)) hs (h.excuse fun _ hx => hx.elim) hc fun _ hp => hp
  have hid := id_of_call? hd
  obtain ⟨hforget, haway⟩ := hawake.forget (.caller c.id)
  rw [← hid] at hforget haway
  have hdrop := Awake.dropCall (c := d) (hforget.excuse fun b hb => hb.elim (fun he => hid ▸ he) id)
    haway (by rw [hid]; exact hd) hlive
  rw [hid] at hdrop
  exact hdrop.congr rfl rfl rfl rfl

/-- **Every step keeps everyone awake.** -/
theorem Step.awake {act : Action} (hstep : Step A w act seen w') (hs : w.Sound)
    (h : w.Awake fun _ => False) : w'.Awake fun _ => False := by
  cases hstep with
  | begin agents task prompts => exact h.beginCall hs agents task prompts
  | turn ha ht => exact ht.awake hs h ha
  | cancel hc => exact h.cancelCall hs hc
  | abandon hc => exact h.abandonCall hs hc
  | pass hready _ _ => exact h.passTo hready _

/-- **A run keeps everyone awake.** -/
theorem Run.awake {trace : Trace} (hrun : Run A w trace w') (hs : w.Sound)
    (h : w.Awake fun _ => False) : w'.Awake fun _ => False :=
  (hrun.preserves (P := fun v => v.Sound ∧ v.Awake fun _ => False)
    (fun _ _ _ _ h hs => ⟨hs.sound h.1, hs.awake h.1 h.2⟩) ⟨hs, h⟩).2

/-- **In a reachable world everyone is awake.** -/
theorem Reachable.awake {x : Executor} (h : Reachable x w) : w.Awake fun _ => False := by
  obtain ⟨trace, hrun⟩ := h
  refine hrun.awake (sound_idle x) ⟨List.nodup_nil, by simp [idle], by simp [idle], ?_⟩
  intro a s hs
  simp [standing?, call?, idle] at hs

end World

end AgentSwarm
