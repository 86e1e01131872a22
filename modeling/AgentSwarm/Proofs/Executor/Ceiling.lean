/-
**The ceiling of concurrent requests.**

Every step of an executor leaves a sound world sound: whoever starts, waits, answers, fails, is
cancelled or is abandoned, in whatever order, permits are neither lost nor made.  An invocation at
the backend holds a permit, so never more requests are under way than a pool has permits, and when
no call is left every pool has all of them again.

Main results:

* `AgentSwarm.World.Move.sound`, `AgentSwarm.World.LastMove.sound`,
  `AgentSwarm.World.Step.sound` — what an actor does, and every step, keeps a world sound;
* `AgentSwarm.World.Reachable.sound` — so every reachable world is sound;
* `AgentSwarm.World.Moment.ceiling` — **permits add up, and bound the requests under way**.
-/

import AgentSwarm.Proofs.Executor.Permits
import AgentSwarm.Proofs.Executor.Runs
import AgentSwarm.Proofs.Strategy.Coverage

set_option relaxedAutoImplicit false
set_option autoImplicit false

namespace AgentSwarm

namespace World

variable {A : BackendLaw} {a : Actor} {w w' : World} {c d : TaskCall} {i : Invocation}
  {seen : List Occurrence}

/-! ### Taking a permit and waiting for one -/

/-- An invocation that has not run yet waits in no queue. -/
theorem Queued.not_mem_of_fresh (h : w.Queued none) (hi : w.Has c i) (hs : i.stage = .fresh)
    (key : Option String) : actorOf c i ∉ (w.pool key).waiting := by
  rw [h.mem_iff key, hi.unit?]
  rintro ⟨_, j, hj, hq, _⟩
  obtain rfl := Option.some.inj hj
  rw [hs] at hq
  cases hq

/-- A free permit is taken. -/
theorem Sound.take (h : w.Sound) (hi : w.Has c i) (hs : i.stage = .fresh)
    (hfree : 0 < (w.pool (w.keyOf i)).free) :
    ((w.putPool (w.keyOf i) { w.pool (w.keyOf i) with
      free := (w.pool (w.keyOf i)).free - 1 }).putCall (c.setStage i.place .admitted)).Sound where
  listed := Listed.congr (w := w.putCall (c.setStage i.place .admitted)) rfl rfl
    (h.listed.adjust (f := fun i => { i with stage := .admitted }) (fun _ => rfl) hi)
  balanced := by
    refine h.balanced.exchange none .admitted _ h.listed hi (by simp) ?_
    simp only [hs, Stage.holdsPermit, if_true, Bool.false_eq_true, if_false, reduceCtorEq]
    omega
  queued := by
    have hnil : (w.pool (w.keyOf i)).waiting = [] := by
      by_contra hne
      have := h.queued.busy _ hne
      omega
    refine h.queued.exchange .admitted _ hi (h.queued.nodup _) ?_ (fun _ _ => Iff.rfl) fun hne => ?_
    · simp [h.queued.not_mem_of_fresh hi hs]
    · exact absurd hnil hne

/-- An invocation waits for a permit when none is free. -/
theorem Sound.enqueue (h : w.Sound) (hi : w.Has c i) (hs : i.stage = .fresh)
    (hfree : (w.pool (w.keyOf i)).free = 0) :
    ((w.putPool (w.keyOf i) { w.pool (w.keyOf i) with
      waiting := (w.pool (w.keyOf i)).waiting ++ [actorOf c i] }).putCall
        (c.setStage i.place .queued)).Sound where
  listed := Listed.congr (w := w.putCall (c.setStage i.place .queued)) rfl rfl
    (h.listed.adjust (f := fun i => { i with stage := .queued }) (fun _ => rfl) hi)
  balanced := by
    refine h.balanced.exchange none .queued _ h.listed hi (by simp) ?_
    simp [hs, Stage.holdsPermit]
  queued := by
    refine h.queued.exchange .queued _ hi ?_ (by simp) (fun a ha => by simp [ha]) fun _ => hfree
    refine List.nodup_append.2 ⟨h.queued.nodup _, by simp, ?_⟩
    intro b hb b' hb' he
    rw [List.mem_singleton] at hb'
    exact h.queued.not_mem_of_fresh hi hs _ (hb' ▸ he ▸ hb)

/-! ### Calls that begin, go on to a batch, or are over -/

/-- The invocations of a batch have not run yet, and their places are those of the batch. -/
theorem openBatch_spec (c : TaskCall) (now serial : Nat) (members : List (Nat × Agent)) :
    (∀ i ∈ (openBatch c now serial members).2, i.stage = .fresh) ∧
      ((openBatch c now serial members).2.map (·.place)).Sublist (members.map Prod.fst) := by
  induction members generalizing serial with
  | nil => simp [openBatch]
  | cons member rest ih =>
      obtain ⟨place, agent⟩ := member
      cases hp : prepare c now agent with
      | error result =>
          simp only [openBatch, hp, List.map_cons]
          exact ⟨(ih serial).1, (ih serial).2.cons place⟩
      | ok prompt =>
          simp only [openBatch, hp, List.map_cons]
          refine ⟨?_, (ih (serial + 1)).2.cons_cons place⟩
          intro i hi
          rcases List.mem_cons.1 hi with rfl | hi
          · rfl
          · exact (ih (serial + 1)).1 i hi

/-- The places of the agents of a batch are those of the batch. -/
theorem map_fst_batchAgents_sublist (c : TaskCall) (batch : List Nat) :
    ((batchAgents c batch).map Prod.fst).Sublist batch := by
  induction batch with
  | nil => simp [batchAgents]
  | cons place rest ih =>
      simp only [batchAgents, List.filterMap_cons]
      cases c.agents[place]? with
      | none => exact ih.cons place
      | some agent => exact ih.cons_cons place

/-- A call without live invocations may be given some that have not run yet. -/
theorem Sound.open (h : w.Sound) (hc : w.call? d.id = some c) (hlive : c.live = [])
    (hfresh : ∀ i ∈ d.live, i.stage = .fresh) (hd : d.Tidy) : (w.putCall d).Sound where
  listed := h.listed.putCall hc hd
  balanced := by
    intro key
    have hw := total_putCall h.listed.ids_nodup hc (w.executor.permitIn key)
    have hctotal : c.total (w.executor.permitIn key) = 0 := by simp [TaskCall.total, hlive]
    have hdtotal : d.total (w.executor.permitIn key) = 0 := by
      rw [TaskCall.total, List.sum_eq_zero]
      intro n hn
      obtain ⟨i, hi, rfl⟩ := List.mem_map.1 hn
      simp [Executor.permitIn, hfresh i hi, Stage.holdsPermit]
    have hb := h.balanced key
    simp only [held, executor_putCall, pool_putCall] at hb ⊢
    omega
  queued := by
    refine ⟨h.queued.nodup, ?_, h.queued.busy⟩
    intro key b
    rw [pool_putCall, h.queued.mem_iff key b, unit?_putCall hc]
    split
    next hid =>
        -- before there was no live invocation, and now none waits
        refine and_congr_right fun _ => ⟨?_, ?_⟩
        · rintro ⟨i, hi, _⟩
          obtain ⟨e, he, rfl⟩ := Has.of_unit? hi
          have hec : some e = some c := by
            rw [← he.call, ← hc, ← hid]
            rfl
          obtain rfl := Option.some.inj hec
          have := he.mem_live
          simp [hlive] at this
        · rintro ⟨i, hi, hq, _⟩
          cases b with
          | caller id => cases hi
          | invocation id place =>
              rw [hfresh i (TaskCall.mem_live_of_invocation? hi)] at hq
              cases hq
    next => exact Iff.rfl

/-- A call without live invocations may be dropped. -/
theorem Sound.dropCall (h : w.Sound) (hc : w.call? c.id = some c) (hlive : c.live = []) :
    (w.dropCall c.id).Sound where
  listed := by
    have hsub : (w.dropCall c.id).calls.Sublist w.calls := List.filter_sublist
    exact ⟨h.listed.ids_nodup.sublist (hsub.map _), fun e he => h.listed.id_lt e (hsub.subset he),
      fun e he => h.listed.tidy e (hsub.subset he)⟩
  balanced := by
    intro key
    have hw := total_dropCall h.listed.ids_nodup hc (w.executor.permitIn key)
    have hctotal : c.total (w.executor.permitIn key) = 0 := by simp [TaskCall.total, hlive]
    have hb := h.balanced key
    change (w.pool key).free + (w.dropCall c.id).total (w.executor.permitIn key) = _
    simp only [held] at hb
    change _ = w.executor.poolSize + _
    omega
  queued := by
    refine ⟨h.queued.nodup, ?_, h.queued.busy⟩
    intro key b
    change b ∈ (w.pool key).waiting ↔ _
    rw [h.queued.mem_iff key b]
    have hunit : (w.dropCall c.id).unit? b = w.unit? b := by
      cases b with
      | caller id => rfl
      | invocation id place =>
          simp only [unit?, call?_dropCall]
          split
          next hid => simp [hid, hc, TaskCall.invocation?, hlive]
          next => rfl
    rw [hunit]
    exact Iff.rfl

/-- A call as it begins. -/
def newCall (w : World) (agents : List Agent) (task : Task) (prompts : PromptBuilder) : TaskCall :=
  { id := w.nextCall, agents, task, prompts, remaining := w.executor.batches agents, dispatched := 0
    isCancelled := false, isPausing := false, live := [], gathered := [], results := [] }

/-- A call that begins is the one of the next number, and changes no other call. -/
theorem call?_beginCall (w : World) (agents : List Agent) (task : Task) (prompts : PromptBuilder)
    {k : Nat} (hk : k ≠ w.nextCall) : (w.beginCall agents task prompts).call? k = w.call? k := by
  have hne : ¬ w.nextCall = k := fun he => hk he.symm
  simp [call?, World.beginCall, wake, List.find?_append, hne]

/-- A call that begins is found under the next number. -/
theorem Listed.call?_beginCall_self (h : w.Listed) (agents : List Agent)
    (task : Task) (prompts : PromptBuilder) :
    (w.beginCall agents task prompts).call? w.nextCall = some (newCall w agents task prompts) := by
  have hnew := h.call?_nextCall
  simp only [call?] at hnew
  simp [call?, World.beginCall, wake, List.find?_append, hnew, newCall]

theorem Listed.beginCall (h : w.Listed) (agents : List Agent) (task : Task)
    (prompts : PromptBuilder) : (w.beginCall agents task prompts).Listed := by
  have hnew := call?_eq_none.1 h.call?_nextCall
  refine ⟨?_, ?_, ?_⟩
  · simp only [World.beginCall, wake, List.map_append, List.map_cons, List.map_nil]
    refine List.nodup_append.2 ⟨h.ids_nodup, by simp, ?_⟩
    intro id hid id' hid' he
    rw [List.mem_singleton] at hid'
    exact hnew (hid' ▸ he ▸ hid)
  · intro c hc
    rcases List.mem_append.1 hc with hc | hc
    · exact Nat.lt_succ_of_lt (h.id_lt c hc)
    · obtain rfl := List.mem_singleton.1 hc
      exact Nat.lt_succ_self _
  · intro c hc
    rcases List.mem_append.1 hc with hc | hc
    · exact h.tidy c hc
    · -- the batches of a plan share no place, so none has a place twice
      obtain rfl := List.mem_singleton.1 hc
      have hperm := Strategy.perm_flatten_plan w.executor.strategy (agents.map (·.partition))
      exact ⟨List.nodup_nil, (List.nodup_flatten.1 (hperm.nodup_iff.2 List.nodup_range)).1,
        fun _ => rfl⟩

/-- A call begins with no invocations. -/
theorem Sound.beginCall (h : w.Sound) (agents : List Agent) (task : Task)
    (prompts : PromptBuilder) : (w.beginCall agents task prompts).Sound where
  listed := h.listed.beginCall agents task prompts
  balanced := by
    intro key
    have hheld : (w.beginCall agents task prompts).held key = w.held key := by
      simp [held, total, World.beginCall, wake, TaskCall.total]
    rw [hheld]
    exact h.balanced key
  queued := by
    refine ⟨h.queued.nodup, ?_, h.queued.busy⟩
    intro key b
    have hunit : (w.beginCall agents task prompts).unit? b = w.unit? b := by
      cases b with
      | caller id => rfl
      | invocation id place =>
          by_cases hid : id = w.nextCall
          · rw [hid]
            simp [unit?, h.listed.call?_beginCall_self, h.listed.call?_nextCall, newCall,
              TaskCall.invocation?]
          · simp only [unit?, call?_beginCall w agents task prompts hid]
    rw [hunit]
    exact h.queued.mem_iff key b

/-! ### Steps -/

/-- **What an actor does on its way keeps a world sound.** -/
theorem Move.sound (hm : Move A a w seen w') (h : w.Sound) : w'.Sound := by
  cases hm with
  | start hi _ hs =>
      exact h.adjust (f := fun j => { j with startedAt := w.now }) (fun _ => rfl) hi rfl rfl Iff.rfl
  | take hi _ hs hfree => exact h.take hi hs hfree
  | @send _ c i due response hi _ hs _ _ =>
      have hset := h.adjust (f := fun j => { j with stage := (.calling
        (w.now + (w.executor.curtail response).1) (w.executor.curtail response).2) })
        (fun _ => rfl) hi rfl (by rcases hs with hs | hs <;> simp [hs, Stage.holdsPermit])
        (by rcases hs with hs | hs <;> simp [hs])
      refine Sound.congr (w := w.putCall (c.setStage i.place (.calling
        (w.now + (w.executor.curtail response).1) (w.executor.curtail response).2))) ?_ ?_ ?_ ?_ hset
      all_goals cases due <;> rfl
  | @report _ c hc hlive =>
      have htidy := h.listed.tidy c (mem_calls_of_call? hc)
      exact h.putCall (d := collect c) hc rfl
        ⟨htidy.places_nodup, htidy.batches_nodup, htidy.pausing⟩

/-- **What an actor does at the end of its turn keeps a world sound.** -/
theorem LastMove.sound (hm : LastMove a w seen w') (h : w.Sound) : w'.Sound := by
  cases hm with
  | enqueue hi _ hs hfree => exact h.enqueue hi hs hfree
  | @throttle _ c i time hi _ hs _ =>
      have hset := h.adjust (f := fun j => { j with stage := .throttled })
        (fun _ => rfl) hi rfl (by rcases hs with hs | hs <;> simp [hs, Stage.holdsPermit])
        (by rcases hs with hs | hs <;> simp [hs])
      exact Sound.congr (w := w.putCall (c.setStage i.place .throttled)) rfl rfl rfl rfl hset
  | await _ _ _ _ => exact Sound.congr (w := w) rfl rfl rfl rfl h
  | @finish _ c i ending hi _ => exact h.finish hi ending
  | @pause _ c hc hlive _ _ _ =>
      have htidy := h.listed.tidy c (mem_calls_of_call? hc)
      have hput := h.putCall (d := { c with isPausing := true }) hc rfl
        ⟨htidy.places_nodup, htidy.batches_nodup, fun _ => hlive⟩
      exact Sound.congr (w := w.putCall { c with isPausing := true }) rfl rfl rfl rfl hput
  | @dispatch _ c batch rest hc hlive _ hrem _ =>
      obtain ⟨hfresh, hplaces⟩ := openBatch_spec c w.now w.nextSerial (batchAgents c batch)
      have htidy := h.listed.tidy c (mem_calls_of_call? hc)
      have hbatch := htidy.batches_nodup batch (by simp [hrem])
      have hput := h.open (d := { c with
          remaining := rest, dispatched := c.dispatched + 1, isPausing := false
          live := (openBatch c w.now w.nextSerial (batchAgents c batch)).2
          gathered := (openBatch c w.now w.nextSerial (batchAgents c batch)).1 })
        hc hlive hfresh
        ⟨hbatch.sublist (hplaces.trans (map_fst_batchAgents_sublist c batch)),
          fun b hb => htidy.batches_nodup b (by rw [hrem]; exact List.mem_cons_of_mem _ hb), by simp⟩
      exact Sound.congr (w := w.putCall _) rfl rfl rfl rfl hput
  | leave hc hlive _ _ => exact h.dropCall hc hlive

theorem Acts.sound (ha : Acts A a w seen w') (h : w.Sound) : w'.Sound := by
  induction ha with
  | last hm => exact hm.sound h
  | move hm _ ih => exact ih (hm.sound h)

theorem Turn.sound (ht : Turn A a w seen w') (h : w.Sound) : w'.Sound := by
  cases ht with
  | idle _ => exact h
  | acts ha => exact ha.sound h

/-- **What is kept whenever an invocation of a call is given up is kept when all are**, and then no
invocation of the call is left. -/
theorem fold_abandonInvocation {P : World → Prop} {id : Nat}
    (hP : ∀ (w : World) (c : TaskCall) (i : Invocation), w.Sound → P w → w.Has c i → c.id = id →
      P (w.detach c.id i)) (places : List Nat) (h : w.Sound) (hw : P w)
    (hc : w.call? id = some c) (hplaces : ∀ p ∈ c.live.map (·.place), p ∈ places) :
    (places.foldl (abandonInvocation id) w).Sound ∧ P (places.foldl (abandonInvocation id) w) ∧
      ∃ d, (places.foldl (abandonInvocation id) w).call? id = some d ∧ d.live = [] := by
  induction places generalizing w c with
  | nil =>
      refine ⟨h, hw, c, hc, ?_⟩
      exact List.map_eq_nil_iff.1 (List.eq_nil_iff_forall_not_mem.2 fun p hp => by
        simpa using hplaces p hp)
  | cons place rest ih =>
      rw [List.foldl_cons]
      cases hi : c.invocation? place with
      | none =>
          -- the place is empty, so no live invocation stands there
          have hskip : abandonInvocation id w place = w := by simp [abandonInvocation, hc, hi]
          rw [hskip]
          refine ih h hw hc ?_
          intro p hp
          rcases List.mem_cons.1 (hplaces p hp) with rfl | hrest
          · exact absurd hp (TaskCall.invocation?_eq_none.1 hi)
          · exact hrest
      | some i =>
          obtain rfl := id_of_call? hc
          obtain rfl := TaskCall.place_of_invocation? hi
          have hhas : w.Has c i := ⟨hc, hi⟩
          -- its permit may go to another invocation of the call, which stays where it is
          have hstep : abandonInvocation c.id w i.place = w.detach c.id i := by
            simp [abandonInvocation, hc, hi]
          obtain ⟨c₁, hgrant, _, hcall⟩ := call?_detach_self h.queued hhas
          rw [hstep]
          refine ih (h.detach hhas) (hP w c i h hw hhas rfl) hcall ?_
          intro p hp
          rw [TaskCall.map_place_without, hgrant.map_place] at hp
          obtain ⟨hp, hne⟩ := List.mem_filter.1 hp
          rcases List.mem_cons.1 (hplaces p hp) with rfl | hrest
          · simp at hne
          · exact hrest

/-- Cancelling a call keeps a world sound. -/
theorem Sound.cancelCall (h : w.Sound) (hc : w.call? c.id = some c) : (w.cancelCall c).Sound := by
  have htidy := h.listed.tidy c (mem_calls_of_call? hc)
  have hput := h.putCall (d := { c with isCancelled := true }) hc rfl
    ⟨htidy.places_nodup, htidy.batches_nodup, htidy.pausing⟩
  exact cancelCall_keeps hput fun v _ hv => Sound.congr (w := v) rfl rfl rfl rfl hv

/-- Abandoning a call keeps a world sound. -/
theorem Sound.abandonCall (h : w.Sound) (hc : w.call? c.id = some c) :
    (w.abandonCall c).1.Sound := by
  obtain ⟨hsound, _, d, hd, hlive⟩ := fold_abandonInvocation (P := fun _ => True)
    (fun _ _ _ _ _ _ _ => trivial) (c.live.map (·.place)) h trivial hc fun _ hp => hp
  have hid := id_of_call? hd
  have hdrop := hsound.dropCall (c := d) (hid ▸ hd) hlive
  rw [hid] at hdrop
  exact Sound.congr (w := World.dropCall ((c.live.map (·.place)).foldl (abandonInvocation c.id) w)
    c.id) rfl rfl rfl rfl hdrop

/-- **Every step keeps a world sound.** -/
theorem Step.sound {act : Action} (hs : Step A w act seen w') (h : w.Sound) : w'.Sound := by
  cases hs with
  | begin agents task prompts => exact h.beginCall agents task prompts
  | turn _ ht => exact ht.sound (h.rise _)
  | cancel hc => exact h.cancelCall hc
  | abandon hc => exact h.abandonCall hc
  | pass _ _ _ => exact Sound.congr (w := w) rfl rfl rfl rfl h

/-! ### Reachable worlds -/

/-- An executor without calls is sound. -/
theorem sound_idle (x : Executor) : (idle x).Sound where
  listed := ⟨List.nodup_nil, by simp [idle], by simp [idle]⟩
  balanced := by
    intro key
    simp [pool, held, total, idle]
  queued := by
    refine ⟨?_, ?_, ?_⟩
    · intro key
      exact List.nodup_nil
    · intro key a
      cases a <;> simp [pool, idle, unit?, call?]
    · intro key hne
      simp [pool, idle] at hne

/-- **Every reachable world is sound.** -/
theorem Reachable.sound {x : Executor} (h : Reachable x w) : w.Sound := by
  obtain ⟨trace, hrun⟩ := h
  exact hrun.preserves (fun _ _ _ _ h hs => hs.sound h) (sound_idle x)

/-- The worlds in the midst of the turn of an actor. -/
inductive Amid (A : BackendLaw) (a : Actor) (w : World) : World → Prop
  | rise : a ∈ w.ready → Amid A a w (w.rise a)
  | move {w₁ w₂ : World} {seen : List Occurrence} : Amid A a w w₁ → Move A a w₁ seen w₂ →
      Amid A a w w₂

/-- The worlds an executor is in at any moment, in the midst of turns too. -/
def Moment (x : Executor) (w : World) : Prop :=
  ∃ v, Reachable x v ∧ (w = v ∨ ∃ a, Amid anyLaw a v w)

/-- At every moment the world is sound, and its executor is the one it began with. -/
theorem Moment.sound {x : Executor} (h : Moment x w) : w.Sound ∧ w.executor = x := by
  obtain ⟨v, hv, rfl | ⟨a, hamid⟩⟩ := h
  · exact ⟨hv.sound, hv.executor_eq⟩
  · induction hamid with
    | rise _ => exact ⟨hv.sound.rise a, hv.executor_eq⟩
    | move _ hm ih => exact ⟨hm.sound ih.1, hm.steady.executor.trans ih.2⟩

/-! ### The ceiling -/

/-- The requests under way. -/
def inFlight (w : World) : Nat := w.total fun i => if i.stage.isCalling then 1 else 0

/-- The requests under way for agents of a partition. -/
def inFlightIn (w : World) (partition : String) : Nat :=
  w.total fun i => if i.stage.isCalling ∧ i.agent.partition = partition then 1 else 0

/-- Whoever is at the backend holds a permit. -/
theorem holdsPermit_of_isCalling {stage : Stage} (h : stage.isCalling = true) :
    stage.holdsPermit = true := by
  cases stage <;> simp_all [Stage.isCalling, Stage.holdsPermit]

/-- Free and held permits make a full pool. -/
theorem Sound.free_add_held (h : w.Sound) (key : Option String) :
    (w.pool key).free + w.held key = w.executor.poolSize := by
  simpa using h.balanced key

/-- **Permits add up, and bound the requests under way**: of every pool the free and the held
permits are as many as the strategy asks for, at most 256.  Without routing so many requests are
under way at most, with routing for every partition.  When there is no call, all permits are free
and nobody waits. -/
theorem Moment.ceiling {x : Executor} (h : Moment x w) :
    (∀ key, (w.pool key).free + w.held key = min x.strategy.maxRequests 256) ∧
    (x.strategy.routed = false → w.inFlight ≤ min x.strategy.maxRequests 256) ∧
    (x.strategy.routed = true →
      ∀ partition, w.inFlightIn partition ≤ min x.strategy.maxRequests 256) ∧
    (w.calls = [] → ∀ key, w.pool key = ⟨min x.strategy.maxRequests 256, []⟩) := by
  obtain ⟨hsound, rfl⟩ := h.sound
  have hsum : ∀ key, (w.pool key).free + w.held key = min w.executor.strategy.maxRequests 256 :=
    hsound.free_add_held
  refine ⟨hsum, ?_, ?_, ?_⟩
  · -- all invocations take their permits from one pool
    intro hrouted
    have hle : w.inFlight ≤ w.held none := by
      refine total_mono fun i => ?_
      split
      next hcalling =>
          have hpermit := holdsPermit_of_isCalling hcalling
          simp [Executor.permitIn, Executor.poolOf, hpermit, hrouted]
      next => exact Nat.zero_le _
    have := hsum none
    omega
  · intro hrouted partition
    have hle : w.inFlightIn partition ≤ w.held (some partition) := by
      refine total_mono fun i => ?_
      split
      next hcalling =>
          have hpermit := holdsPermit_of_isCalling hcalling.1
          simp [Executor.permitIn, Executor.poolOf, hpermit, hrouted, hcalling.2]
      next => exact Nat.zero_le _
    have := hsum (some partition)
    omega
  · intro hcalls key
    have hheld : w.held key = 0 := by simp [held, total, hcalls]
    have hwaiting : (w.pool key).waiting = [] := by
      rw [List.eq_nil_iff_forall_not_mem]
      intro a ha
      obtain ⟨_, i, hi, _⟩ := (hsound.queued.mem_iff key a).1 ha
      obtain ⟨c, hc, _⟩ := Has.of_unit? hi
      have := hc.mem_calls
      simp [hcalls] at this
    have hfree : (w.pool key).free = min w.executor.strategy.maxRequests 256 := by
      have := hsum key
      omega
    rw [← hwaiting, ← hfree]

/-- The ceiling is met: one request is under way, and no other may be. -/
theorem Moment.ceiling_met :
    let w := (Sample.begun.follow ⟨5, default⟩ [.caller 0, .invocation 0 0]).2
    w.inFlight = 1 ∧ w.inFlight ≤ min 1 256 ∧ (w.pool none).free + w.held none = min 1 256 := by
  have hrun : Run anyLaw Sample.begun
      (Sample.begun.follow ⟨5, default⟩ [.caller 0, .invocation 0 0]).1 _ :=
    run_follow (fun _ _ => trivial) [.caller 0, .invocation 0 0] (by decide +kernel)
  have hmoment : Moment Sample.executor _ := ⟨_, Sample.reachable_begun.run hrun, .inl rfl⟩
  exact ⟨by decide +kernel, (Moment.ceiling hmoment).2.1 rfl, (Moment.ceiling hmoment).1 none⟩

end World

end AgentSwarm
