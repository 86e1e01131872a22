/-
**The books of a swarm.**

A swarm counts the calls that complete, and every agent keeps a history of those it served in.  Over
the whole life of a swarm, with calls that overlap in whatever way, these books agree with the
operations: no call is lost, none is counted twice, and each record is that of the agent's own
result.

What carries the proof is that a call asks the agents of the roster as it still is when the call
completes, so the result of an agent is the failure of a disabled one exactly when it is disabled.

Main definitions:

* `AgentSwarm.Swarm.UnderWay` — a task that is under way since its call began;
* `AgentSwarm.Swarm.Books` — the counts of a swarm agree with the operations;
* `AgentSwarm.Swarm.Ledger` — the invariant: the books with what is under way.

Main results:

* `AgentSwarm.Swarm.UnderWay.result_of_returned` — a call that returns has the results of the
  roster's agents;
* `AgentSwarm.Swarm.Ledger.step` — every step keeps the ledger;
* `AgentSwarm.Swarm.Life.books` — **the books agree with the operations**.
-/

import AgentSwarm.Proofs.Executor.Complete
import AgentSwarm.Proofs.Swarm.Entries

set_option relaxedAutoImplicit false
set_option autoImplicit false

namespace AgentSwarm.Swarm

variable {b : Blueprint} {ops more : List Operation} {d : Operation} {s s' : Swarm} {t : OpenTask}
  {e : Entry} {act : Act} {a : Action} {seen : List Occurrence} {trace : Trace} {told : List Event}
  {roster : Roster} {bus : Option EventBus} {call : Nat}
  {results : List (String × AgentResult Float)} {time : Nat}

/-! ### Tasks under way -/

/-- A task that is under way: since its call began it has run for agents with the ids and statuses
that the agents of the roster still have. -/
inductive UnderWay (ops : List Operation) (s : Swarm) (t : OpenTask) : Prop
  | since {w : World} {agents : List Agent} {task : Task} {prompts : PromptBuilder} {trace : Trace}
      (early during : List Operation) : w.Sound → w.nextCall = t.call →
      World.Run World.anyLaw (w.beginCall agents task prompts) trace s.world →
      agents.map (·.badge) = s.roster.agents.map (·.badge) →
      ops = early ++ .began t.call t.taskId :: during → (∀ d ∈ during, d.isChange = false) →
      UnderWay ops s t

namespace UnderWay

/-- A task stays under way as long as no agent joins and no status is set. -/
theorem mono (h : UnderWay ops s t) (hrun : World.Run World.anyLaw s.world trace s'.world)
    (hroster : s'.roster.agents.map (·.badge) = s.roster.agents.map (·.badge))
    (hmore : ∀ d ∈ more, d.isChange = false) : UnderWay (ops ++ more) s' t := by
  cases h with
  | since early during hw hnext hbefore hagents hops hduring =>
      refine .since early (during ++ more) hw hnext (hbefore.trans hrun)
        (hagents.trans hroster.symm) ?_ fun d hd =>
          (List.mem_append.1 hd).elim (hduring d) (hmore d)
      rw [hops, List.append_assoc, List.cons_append]

/-- The roster has not changed since its call began. -/
theorem began (h : UnderWay ops s t) : ∃ early during,
    ops = early ++ .began t.call t.taskId :: during ∧ ∀ d ∈ during, d.isChange = false := by
  cases h with
  | since early during _ _ _ _ hops hduring => exact ⟨early, during, hops, hduring⟩

/-- **A call that returns has the results of the roster's agents**: that of an agent is the failure
of a disabled one exactly when the agent is disabled. -/
theorem result_of_returned {w : World} (h : UnderWay ops s t) (hids : s.roster.ids.Nodup)
    (hrun : World.Run World.anyLaw s.world trace w)
    (hret : .returned t.call results time ∈ trace.seen) (he : e ∈ s.roster.entries) :
    ∃ r, results.lookup e.id = some r ∧
      (r.failure?.map Prod.snd = some .agentDisabled ↔ e.status ≠ .active) := by
  cases h with
  | @since w₀ agents task prompts before _ _ hw hnext hbefore hagents _ _ =>
      have hagentIds : (agents.map (·.id)).Nodup := by
        rw [Roster.ids_eq_badges, ← hagents, ← Roster.ids_eq_badges ⟨agents⟩] at hids
        exact hids
      have hret' : .returned w₀.nextCall results time ∈ Trace.seen (before ++ trace) := by
        rw [hnext, Trace.seen_append]
        exact List.mem_append_right _ hret
      obtain ⟨c, log, hacc, hlive, hgathered, hrem, rfl, _⟩ := hw.returned
        (accounted_invariant World.anyLaw w₀.executor (fun _ => True) True
          (b := ⟨w₀.nextCall, agents, task, prompts⟩) hagentIds)
        (accounted_newCall _ _ _ w₀ agents task prompts) (hbefore.trans hrun) (fun _ => trivial)
        hret'
      -- the agent as the call was given it has the same id and status
      obtain ⟨a, ha, rfl⟩ := List.mem_map.1 he
      obtain ⟨agent, hagent, hbadge⟩ : ∃ agent ∈ agents, agent.badge = a.badge := by
        have hmem : a.badge ∈ s.roster.agents.map (·.badge) := List.mem_map.2 ⟨a, ha, rfl⟩
        rw [← hagents] at hmem
        exact List.mem_map.1 hmem
      obtain ⟨hid, hstatus⟩ := Prod.mk.inj hbadge
      obtain ⟨r, hlookup, hexplains⟩ := hacc.entry hagentIds hlive hgathered hrem hagent
      rw [hid] at hlookup
      refine ⟨r, hlookup, ?_⟩
      change _ ↔ a.status ≠ .active
      rw [← hstatus]
      constructor
      · exact fun hfailure hactive =>
          hexplains.of_active (by simpa [Agent.isActive] using hactive) hfailure
      · exact fun hdisabled => hexplains.of_disabled (by simpa [Agent.isActive] using hdisabled)

/-- The results of a call that returns do not change the entry of a disabled agent. -/
theorem after_of_disabled {w : World} (h : UnderWay ops s t) (hids : s.roster.ids.Nodup)
    (hrun : World.Run World.anyLaw s.world trace w)
    (hret : .returned t.call results time ∈ trace.seen) (he : e ∈ s.roster.entries)
    (hdisabled : e.status ≠ .active) : e.after t.taskId results = e := by
  obtain ⟨r, hlookup, hkind⟩ := h.result_of_returned hids hrun hret he
  exact Entry.after_of_disabled hlookup (hkind.2 hdisabled)

/-- **The entries are kept when a call completes.** -/
theorem kept {w : World} {size : Nat} (h : UnderWay ops s t) (hids : s.roster.ids.Nodup)
    (hrun : World.Run World.anyLaw s.world trace w)
    (hret : .returned t.call results time ∈ trace.seen) (he : e ∈ s.roster.entries)
    (hkept : e.Kept size ops) :
    (e.after t.taskId results).Kept size (ops ++ [.completed t.call results]) := by
  by_cases hactive : e.status = .active
  · obtain ⟨r, hlookup, hkind⟩ := h.result_of_returned hids hrun hret he
    obtain ⟨early, during, hbegan, _⟩ := h.began
    rw [Entry.after_of_recorded hlookup fun hdisabled => hkind.1 hdisabled hactive]
    refine hkept.serve hactive (.intro ?_ hlookup)
    rw [hbegan, begunIn, List.filterMap_append]
    exact List.mem_append_right _ (by simp [Operation.began?])
  · rw [h.after_of_disabled hids hrun hret he hactive]
    exact hkept.unserved rfl fun h => absurd h hactive

end UnderWay

/-! ### Books -/

/-- **The counts of a swarm agree with the operations.**  Those who joined are in the roster.  Every
call that began is under way, has completed or was dropped, and only one of these; the roster did not
change during those that completed; these are counted, and their results reported, latest first. -/
structure Books (ops : List Operation) (s : Swarm) : Prop where
  total : s.status.totalTasks = (completedIn ops).length
  reports : s.reports.map (fun e => (e.1, e.2.results)) = (completedIn ops).reverse
  begun : (begunIn ops).map Prod.fst = List.range s.world.nextCall
  calls : ((begunIn ops).map Prod.fst).Perm
    (s.openTasks.map (·.call) ++ ((completedIn ops).map Prod.fst ++ droppedIn ops))
  isOpen : ∀ call, call ∈ s.openTasks.map (·.call) ↔ s.world.call? call ≠ none
  unbroken : Unbroken ops
  ids : s.roster.ids = joinedIn ops

namespace Books

/-- The calls under way have numbers of their own. -/
theorem open_nodup (h : Books ops s) : (s.openTasks.map (·.call)).Nodup :=
  (List.nodup_append.1 (h.calls.nodup_iff.1 (h.begun ▸ List.nodup_range))).1

/-- A call under way works on an open task. -/
theorem exists_openTask (h : Books ops s) (hcall : s.world.call? call ≠ none) :
    ∃ t ∈ s.openTasks, t.call = call ∧ s.openTask? call = some t := by
  have hsome : (s.openTask? call).isSome = true := by
    rw [openTask?, List.find?_isSome]
    obtain ⟨t, ht, he⟩ := List.mem_map.1 ((h.isOpen call).2 hcall)
    exact ⟨t, ht, by simpa using he⟩
  obtain ⟨t, ht⟩ := Option.isSome_iff_exists.1 hsome
  exact ⟨t, List.mem_of_find?_eq_some ht, by simpa using List.find?_some ht, ht⟩

/-- A call that returns ends its task. -/
theorem exists_conclude (h : Books ops s) (hcall : s.world.call? call ≠ none)
    (hopen : s.openAfter a = s.openTasks)
    (he : s' = ({ s.resume a s'.world with bus } : Swarm).absorb (.returned call results time)) :
    ∃ t ∈ s.openTasks, t.call = call ∧
      s' = ({ s.resume a s'.world with bus } : Swarm).conclude t results := by
  obtain ⟨t, ht, rfl, hfound⟩ := h.exists_openTask hcall
  have hfound' : ({ s.resume a s'.world with bus } : Swarm).openTask? t.call = some t := by
    change (s.openAfter a).find? _ = _
    rw [hopen]
    exact hfound
  refine ⟨t, ht, rfl, he.trans ?_⟩
  simp only [absorb, hfound']

/-- Those under way are the one that leaves and the others. -/
theorem perm_leave (h : Books ops s) (ht : t ∈ s.openTasks) : (s.openTasks.map (·.call)).Perm
    (t.call :: (s.openTasks.filter (·.call != t.call)).map (·.call)) :=
  (perm_cons_filter_ne h.open_nodup ht).map _

/-- When one leaves the others stay. -/
theorem isOpen_leave {k : Nat} {w : World} (h : Books ops s)
    (hw : ∀ call, w.call? call = none ↔ s.world.call? call = none ∨ call = k) (call : Nat) :
    call ∈ (s.openTasks.filter (·.call != k)).map (·.call) ↔ w.call? call ≠ none := by
  rw [Ne, hw, not_or, ← Ne, ← h.isOpen]
  simp only [List.mem_map, List.mem_filter, bne_iff_ne]
  constructor
  · rintro ⟨t, ⟨ht, hne⟩, rfl⟩
    exact ⟨⟨t, ht, rfl⟩, hne⟩
  · rintro ⟨⟨t, ht, rfl⟩, hne⟩
    exact ⟨t, ⟨ht, hne⟩, rfl⟩

end Books

/-- The books of a swarm with what is under way. -/
structure Ledger (b : Blueprint) (ops : List Operation) (s : Swarm) : Prop extends Books ops s where
  sound : s.world.Sound
  orderly : s.Orderly
  window : s.historyWindow = max b.historyWindow 1
  underWay : ∀ t ∈ s.openTasks, UnderWay ops s t
  kept : ∀ e ∈ s.roster.entries, e.Kept b.historyWindow ops

/-- A swarm whose agents are still to be registered has nothing to keep. -/
theorem ledger_vacant (b : Blueprint) (id : List Char) (x : Executor) :
    Ledger b [] (b.vacant id x) where
  total := rfl
  reports := rfl
  begun := rfl
  calls := .refl _
  isOpen := by simp [Blueprint.vacant, World.call?, World.idle]
  unbroken := fun before call results after he => by simp at he
  ids := rfl
  sound := World.sound_idle x
  orderly := ⟨List.nodup_nil, by simp [Blueprint.vacant]⟩
  window := rfl
  underWay := by simp [Blueprint.vacant]
  kept := by simp [Blueprint.vacant, Roster.empty, Roster.entries]

namespace Ledger

/-! ### Changes of the roster -/

/-- The roster may change between tasks, as long as the entries are kept. -/
theorem between (h : Ledger b ops s) (hidle : s.openTasks = []) (hbegan : d.began? = none)
    (hdropped : d.dropped? = none) (hcompleted : d.completed? = none)
    (hids : roster.ids = joinedIn (ops ++ [d])) (hnodup : roster.ids.Nodup)
    (hkept : ∀ e ∈ roster.entries, e.Kept b.historyWindow (ops ++ [d])) :
    Ledger b (ops ++ [d]) { s with roster, bus } where
  total := h.total.trans (by simp [hcompleted])
  reports := h.reports.trans (by simp [hcompleted])
  begun := by simpa [hbegan] using h.begun
  calls := by simpa [hbegan, hdropped, hcompleted] using h.calls
  isOpen := h.isOpen
  unbroken := h.unbroken.concat fun call results he => by
    rw [he] at hcompleted
    cases hcompleted
  ids := hids
  sound := h.sound
  orderly := ⟨hnodup, h.orderly.calls_lt⟩
  window := h.window
  underWay := fun t ht => by
    rw [show ({ s with roster, bus } : Swarm).openTasks = [] from hidle] at ht
    cases ht
  kept := hkept

/-- An agent joins. -/
theorem register {agent : AgentSpec} (h : Ledger b ops s) (hidle : s.openTasks = [])
    (hadd : Blueprint.register s agent = .ok s') : Ledger b (ops ++ [.joined agent.id]) s' := by
  have horderly := h.orderly.register hadd
  obtain ⟨roster, hroster, rfl⟩ := register_spec hadd
  obtain ⟨hids, hnew⟩ := ids_add hroster
  refine h.between hidle rfl rfl rfl ?_ horderly.ids_nodup fun e he => ?_
  · rw [hids, h.ids, joinedIn_concat]
    rfl
  · rw [Roster.entries_add hroster, List.mem_append, List.mem_singleton] at he
    rcases he with he | rfl
    · have hne : agent.id ≠ e.id := by
        intro hid
        refine hnew ?_
        rw [Roster.ids_eq]
        exact List.mem_map.2 ⟨e, he, hid.symm⟩
      exact (h.kept e he).unserved (if_neg hne) fun _ => rfl
    · have hjoined := Entry.Kept.joined (b.historyWindow) (h.ids ▸ hnew)
      rwa [← History.empty_max, ← h.window] at hjoined

/-- The status of an agent is set. -/
theorem setStatus {id : String} {status : Status} (h : Ledger b ops s) (hidle : s.openTasks = [])
    (hset : s.setStatus id status = .ok s') : Ledger b (ops ++ [.switched id status]) s' := by
  obtain ⟨roster, hroster, rfl⟩ := setStatus_spec hset
  have hids := ids_setStatus hroster
  refine h.between hidle rfl rfl rfl ?_ (hids ▸ h.orderly.ids_nodup) fun e he => ?_
  · rw [hids, h.ids, joinedIn_concat]
    exact (List.append_nil _).symm
  · rw [Roster.entries_setStatus h.orderly.ids_nodup hroster] at he
    obtain ⟨e₀, he₀, rfl⟩ := List.mem_map.1 he
    have hkept := h.kept e₀ he₀
    split
    next hid => exact hkept.unserved (if_pos hid.symm) fun _ => rfl
    next hid => exact hkept.unserved (if_neg (Ne.symm hid)) fun _ => rfl

/-- A change is refused. -/
theorem refuse {error : SwarmError} (h : Ledger b ops s) (hidle : s.openTasks = []) :
    Ledger b (ops ++ [.refused error]) s :=
  h.between hidle rfl rfl rfl (by simp [Operation.joined?, h.ids]) h.orderly.ids_nodup
    fun e he => (h.kept e he).unserved rfl fun _ => rfl

/-! ### Tasks -/

/-- A task begins. -/
theorem begin (h : Ledger b ops s) (task : Task) (algorithm : Option Algorithm) :
    Ledger b (ops ++ [.began s.world.nextCall task.id]) (s.beginTask task algorithm).1 := by
  have hstep := Step.begin (s := s) task algorithm
  have hopen : (s.beginTask task algorithm).1.openTasks.map (·.call) =
      s.openTasks.map (·.call) ++ [s.world.nextCall] := by simp [beginTask, tell]
  have hbegun : (begunIn (ops ++ [.began s.world.nextCall task.id])).map Prod.fst =
      (begunIn ops).map Prod.fst ++ [s.world.nextCall] := by simp [Operation.began?]
  refine ⟨⟨?_, ?_, ?_, ?_, fun call => ?_, ?_, ?_⟩, h.sound.beginCall _ _ _,
    hstep.orderly h.orderly, h.window, fun t ht => ?_, fun e he => ?_⟩
  · exact h.total.trans (by simp [Operation.completed?])
  · exact h.reports.trans (by simp [Operation.completed?])
  · rw [hbegun, h.begun]
    exact List.range_succ.symm
  · rw [hbegun, hopen, List.append_assoc]
    simp only [completedIn_concat, droppedIn_concat, Operation.completed?, Operation.dropped?,
      Option.toList_none, List.append_nil]
    refine (h.calls.append_right _).trans ?_
    rw [List.append_assoc]
    exact List.perm_append_comm.append_left _
  · rw [hopen, List.mem_append, List.mem_singleton, h.isOpen]
    change _ ↔ (s.world.beginCall s.roster.agents task s.prompts).call? call ≠ none
    by_cases hcall : call = s.world.nextCall
    · rw [hcall, h.sound.listed.call?_beginCall_self]
      simp
    · rw [World.call?_beginCall _ _ _ _ hcall]
      simp [hcall]
  · exact h.unbroken.concat fun _ _ he => by cases he
  · exact h.ids.trans (by simp [Operation.joined?])
  · rcases List.mem_append.1 ht with ht | ht
    · exact (h.underWay t ht).mono hstep.world rfl (by simp [Operation.isChange])
    · obtain rfl := List.mem_singleton.1 ht
      exact .since (w := s.world) ops [] h.sound rfl .refl rfl rfl (by simp)
  · exact (h.kept e he).unserved rfl fun _ => rfl

/-! ### The executor -/

/-- The executor goes on, and no call completes or is dropped. -/
theorem on (h : Ledger b ops s) (hstep : s.step? a = some (s', seen))
    (hbegin : ∀ agents task prompts, a ≠ .begin agents task prompts)
    (hdrop : ∀ call, a ≠ .abandon call)
    (hnone : ∀ call results time, .returned call results time ∉ seen)
    (he : s' = { s.resume a s'.world with bus }) : Ledger b ops s' := by
  have hgo := Step.go hbegin hstep
  have hmove := World.step_of_step? (eq_of_step? hstep).1 (World.lawful_anyLaw _ a)
  have hopen : s'.openTasks = s.openTasks := by
    rw [he]
    cases a with
    | abandon call => exact absurd rfl (hdrop call)
    | begin | run | cancel | pass => rfl
  have hroster : s'.roster = s.roster := by rw [he]; rfl
  refine ⟨⟨?_, ?_, ?_, ?_, fun call => ?_, h.unbroken, ?_⟩, hmove.sound h.sound,
    hgo.orderly h.orderly, ?_, fun t ht => ?_, hroster ▸ h.kept⟩
  · rw [he]
    exact h.total
  · rw [he]
    exact h.reports
  · rw [hmove.nextCall_eq hbegin]
    exact h.begun
  · rw [hopen]
    exact h.calls
  · rw [hopen, h.isOpen, Ne, Ne, hmove.call?_eq_none_iff h.sound hbegin]
    simp [hdrop call, hnone call]
  · rw [hroster]
    exact h.ids
  · rw [he]
    exact h.window
  · have hmono : UnderWay (ops ++ []) s' t :=
      (h.underWay t (hopen ▸ ht)).mono hgo.world (by rw [hroster]) (by simp)
    rwa [List.append_nil] at hmono

/-- A task leaves when the executor goes on: its call is dropped or completes. -/
theorem leave (h : Ledger b ops s) (hstep : s.step? a = some (s', seen))
    (hbegin : ∀ agents task prompts, a ≠ .begin agents task prompts) (ht : t ∈ s.openTasks)
    (hd : d = .dropped t.call ∨ ∃ results, d = .completed t.call results)
    (hleft : ∀ call, a = .abandon call ∨ (∃ results time, .returned call results time ∈ seen) ↔
      call = t.call)
    (hunbroken : Unbroken (ops ++ [d]))
    (hopen : s'.openTasks = s.openTasks.filter (·.call != t.call))
    (htotal : s'.totalTasks = (completedIn (ops ++ [d])).length)
    (hreports : s'.reports.map (fun e => (e.1, e.2.results)) = (completedIn (ops ++ [d])).reverse)
    (hwindow : s'.historyWindow = s.historyWindow)
    (hroster : s'.roster.agents.map (·.badge) = s.roster.agents.map (·.badge))
    (hkept : ∀ e ∈ s'.roster.entries, e.Kept b.historyWindow (ops ++ [d])) :
    Ledger b (ops ++ [d]) s' := by
  have hgo := Step.go hbegin hstep
  have hmove := World.step_of_step? (eq_of_step? hstep).1 (World.lawful_anyLaw _ a)
  have hbegun : begunIn (ops ++ [d]) = begunIn ops := by
    rcases hd with rfl | ⟨results, rfl⟩ <;> simp [Operation.began?]
  refine ⟨⟨htotal, hreports, ?_, ?_, fun call => ?_, hunbroken, ?_⟩, hmove.sound h.sound,
    hgo.orderly h.orderly, hwindow.trans h.window, fun u hu => ?_, hkept⟩
  · rw [hbegun, hmove.nextCall_eq hbegin]
    exact h.begun
  · rw [hbegun, hopen]
    refine h.calls.trans (((h.perm_leave ht).append_right _).trans ?_)
    -- the call goes over to those that were dropped or completed
    rw [List.cons_append]
    refine List.perm_middle.symm.trans (List.Perm.append_left _ ?_)
    rcases hd with rfl | ⟨results, rfl⟩
    · simpa [Operation.completed?, Operation.dropped?, ← List.append_assoc] using
        (List.perm_append_singleton _ _).symm
    · simpa [Operation.completed?, Operation.dropped?] using List.perm_middle.symm
  · rw [hopen]
    refine h.isOpen_leave (fun call => ?_) call
    rw [hmove.call?_eq_none_iff h.sound hbegin, hleft]
  · rw [Roster.ids_eq_badges, hroster, ← Roster.ids_eq_badges, h.ids]
    rcases hd with rfl | ⟨results, rfl⟩ <;> simp [Operation.joined?]
  · rw [hopen] at hu
    refine (h.underWay u (List.mem_of_mem_filter hu)).mono hgo.world hroster fun d' hd' => ?_
    rw [List.mem_singleton.1 hd']
    rcases hd with rfl | ⟨results, rfl⟩ <;> rfl

/-- A call is dropped. -/
theorem drop (h : Ledger b ops s) (hstep : s.step? (.abandon call) = some (s', seen))
    (hnone : ∀ call results time, .returned call results time ∉ seen)
    (he : s' = { s.resume (.abandon call) s'.world with bus }) :
    Ledger b (ops ++ [.dropped call]) s' := by
  obtain ⟨c, hc, _⟩ := Option.map_eq_some_iff.1 (eq_of_step? hstep).1
  have hcall : s.world.call? call ≠ none := by simp [hc]
  obtain ⟨t, ht, rfl, _⟩ := h.exists_openTask hcall
  have hroster : s'.roster = s.roster := by rw [he]; rfl
  refine h.leave hstep (fun _ _ _ he => by cases he) ht (.inl rfl) (fun k => ?_)
    (h.unbroken.concat fun _ _ he => by cases he) (by rw [he]; rfl) ?_ ?_ (by rw [he]; rfl)
    (by rw [hroster]) fun e he => (h.kept e (hroster ▸ he)).unserved rfl fun _ => rfl
  · simp [hnone k, eq_comm]
  · rw [he]
    exact h.total.trans (by simp [Operation.completed?])
  · rw [he]
    exact h.reports.trans (by simp [Operation.completed?])

/-- A call completes. -/
theorem finish (h : Ledger b ops s) (hstep : s.step? a = some (s', seen))
    (hbegin : ∀ agents task prompts, a ≠ .begin agents task prompts)
    (hret : .returned call results time ∈ seen) (hcall : s.world.call? call ≠ none)
    (hone : a.drops ++ seen.filterMap (·.completion?) = [.completed call results])
    (hopen : s.openAfter a = s.openTasks)
    (he : s' = ({ s.resume a s'.world with bus } : Swarm).absorb (.returned call results time)) :
    Ledger b (ops ++ [.completed call results]) s' := by
  obtain ⟨t, ht, rfl, hconclude⟩ := h.exists_conclude hcall hopen he
  have hunder := h.underWay t ht
  obtain ⟨early, during, hbegan, hduring⟩ := hunder.began
  refine h.leave hstep hbegin ht (.inr ⟨results, rfl⟩) (fun k => ⟨?_, ?_⟩)
    (h.unbroken.concat fun call results' he => ?_) ?_ ?_ ?_ ?_ ?_ fun e' he' => ?_
  · rintro (rfl | ⟨results', time', hmem⟩)
    · cases (List.cons_eq_cons.1 hone).1
    · have hcompleted : .completed k results' ∈ a.drops ++ seen.filterMap (·.completion?) :=
        List.mem_append_right _ (List.mem_filterMap.2 ⟨_, hmem, rfl⟩)
      rw [hone] at hcompleted
      exact (Operation.completed.inj (List.mem_singleton.1 hcompleted)).1
  · rintro rfl
    exact .inr ⟨results, time, hret⟩
  · obtain ⟨rfl, _⟩ := Operation.completed.inj he
    exact ⟨early, t.taskId, during, hbegan, hduring⟩
  · rw [hconclude]
    exact congrArg (List.filter _) hopen
  · rw [hconclude, completedIn_concat, List.length_append]
    exact congrArg (· + 1) h.total
  · rw [hconclude, completedIn_concat, List.reverse_append]
    exact congrArg (_ :: ·) h.reports
  · rw [hconclude]
    rfl
  · rw [hconclude]
    exact Roster.badges_recordResults ..
  · rw [hconclude] at he'
    change e' ∈ (recordResults t.taskId results s.roster).entries at he'
    rw [Roster.entries_recordResults] at he'
    obtain ⟨e, he, rfl⟩ := List.mem_map.1 he'
    exact hunder.kept h.orderly.ids_nodup (Step.go hbegin hstep).world (by simpa using hret) he
      (h.kept e he)

/-- **Every step keeps the ledger.** -/
theorem step (h : Ledger b ops s) (hstep : Step s act trace told s') :
    Ledger b (ops ++ act.operations s trace) s' := by
  cases hstep with
  | begin task algorithm => exact h.begin task algorithm
  | add hidle hadd => exact h.register hidle hadd
  | setStatus hidle hset => exact h.setStatus hidle hset
  | @go a _ _ hbegin hgo =>
      rw [Act.operations, Trace.seen_singleton]
      rcases step?_cases hgo h.sound with
        ⟨bus, hnone, he⟩ | ⟨bus, k, results, time, hret, hcall, hone, he, hopen⟩
      · rw [filterMap_completion?_eq_nil hnone, List.append_nil]
        cases a with
        | abandon call => exact h.drop hgo hnone he
        | begin | run | cancel | pass =>
            simpa [Action.drops] using h.on hgo hbegin (fun _ ha => by cases ha) hnone he
      · rw [hone]
        exact h.finish hgo hbegin hret hcall hone hopen he

/-- The history of a disabled agent does not change. -/
theorem history_of_disabled (h : Ledger b ops s) (hstep : Step s act trace told s')
    (he : e ∈ s.roster.entries) (hdisabled : e.status ≠ .active) :
    ∃ e' ∈ s'.roster.entries, e'.id = e.id ∧ e'.history = e.history := by
  cases hstep with
  | begin => exact ⟨e, he, rfl, rfl⟩
  | add _ hadd =>
      obtain ⟨roster, hroster, rfl⟩ := register_spec hadd
      refine ⟨e, ?_, rfl, rfl⟩
      change e ∈ roster.entries
      rw [Roster.entries_add hroster]
      exact List.mem_append_left _ he
  | @setStatus id status _ _ hset =>
      obtain ⟨roster, hroster, rfl⟩ := setStatus_spec hset
      refine ⟨if e.id = id then { e with status } else e, ?_, ?_, ?_⟩
      · change _ ∈ roster.entries
        rw [Roster.entries_setStatus h.orderly.ids_nodup hroster]
        exact List.mem_map.2 ⟨e, he, rfl⟩
      · split <;> rfl
      · split <;> rfl
  | @go a _ _ hbegin hgo =>
      refine ⟨e, ?_, rfl, rfl⟩
      rcases step?_cases hgo h.sound with
        ⟨bus, _, heq⟩ | ⟨bus, k, results, time, hret, hcall, _, heq, hopen⟩
      · rw [heq]
        exact he
      · obtain ⟨t, ht, rfl, hconclude⟩ := h.exists_conclude hcall hopen heq
        rw [hconclude]
        change e ∈ (recordResults t.taskId results s.roster).entries
        rw [Roster.entries_recordResults]
        exact List.mem_map.2 ⟨e, he, (h.underWay t ht).after_of_disabled h.orderly.ids_nodup
          (Step.go hbegin hgo).world (by simpa using hret) he hdisabled⟩

end Ledger

/-! ### Whole lives -/

/-- **The ledger is kept over whole lives.** -/
theorem Life.ledger (h : Life b ops s) : Ledger b ops s := by
  induction h with
  | @born id s hbuild =>
      suffices hs : Ledger b ((b.variantAgents ++ b.agents).map fun agent => .joined agent.id) s ∧
          s.openTasks = [] from hs.1
      refine build_induction (P := fun agents s =>
        Ledger b (agents.map fun agent => .joined agent.id) s ∧ s.openTasks = []) hbuild ?_ ?_
      · exact fun x => ⟨ledger_vacant b id x, rfl⟩
      · rintro agents agent s₁ s₂ ⟨h, hidle⟩ hadd
        rw [List.map_append]
        refine ⟨h.register hidle hadd, ?_⟩
        obtain ⟨roster, _, rfl⟩ := register_spec hadd
        exact hidle
  | step _ hstep ih => exact ih.step hstep
  | refuse _ hidle _ ih => exact ih.refuse hidle

/-- **Bookkeeping.**  Over the whole life of a swarm, whichever calls overlap, the total of its
status is the number of calls that completed, and the history of every agent counts the completed
calls in which it was active and keeps the last of them in order, each with its own result.  A
disabled agent keeps its history in every step, and a call that is dropped changes no history and no
count.  Adding an agent fails just for those who have joined, and setting a status just for the
others; the books are then kept as they are. -/
theorem Life.books (h : Life b ops s) :
    s.Books ops ∧ (∀ a ∈ s.roster.agents, a.Accords b.historyWindow ops) ∧
    (∀ act trace told s', Step s act trace told s' →
      (∀ a ∈ s.roster.agents, a.status = .disabled →
        ∃ a' ∈ s'.roster.agents, a'.id = a.id ∧ a'.history = a.history) ∧
      ∀ call, act = .go (.abandon call) →
        s'.roster = s.roster ∧ s'.status.totalTasks = s.status.totalTasks) ∧
    (∀ agent e, Blueprint.register s agent = .error e ↔
      agent.id ∈ joinedIn ops ∧ e = .duplicateAgent agent.id) ∧
    ∀ id status e, s.setStatus id status = .error e ↔
      id ∉ joinedIn ops ∧ e = .unknownAgent id := by
  have hledger := h.ledger
  have hbooks := hledger.toBooks
  refine ⟨hbooks, ?_, ?_, ?_, ?_⟩
  · exact fun a ha => (hledger.kept a.entry (List.mem_map.2 ⟨a, ha, rfl⟩)).accords
  · intro act trace told s' hstep
    refine ⟨fun a ha hdisabled => ?_, ?_⟩
    · have hinactive : a.entry.status ≠ .active := fun he => by
        rw [show a.entry.status = .disabled from hdisabled] at he
        cases he
      obtain ⟨e', he', hid, hhistory⟩ := hledger.history_of_disabled hstep
        (List.mem_map.2 ⟨a, ha, rfl⟩) hinactive
      obtain ⟨a', ha', rfl⟩ := List.mem_map.1 he'
      exact ⟨a', ha', hid, hhistory⟩
    · rintro call rfl
      cases hstep with
      | go hbegin hgo =>
          rcases step?_cases hgo hledger.sound with ⟨bus, _, he⟩ | ⟨_, _, _, _, _, _, hone, _⟩
          · rw [he]
            exact ⟨rfl, rfl⟩
          · cases (List.cons_eq_cons.1 hone).1
  · intro agent e
    rw [← hbooks.ids]
    exact register_eq_error_iff
  · intro id status e
    rw [← hbooks.ids]
    exact setStatus_eq_error_iff

/-- A task that two agents serve in is counted. -/
theorem Life.books_met : ∃ ops s, Life Sample.blueprint ops s ∧ 0 < s.status.totalTasks ∧
    ∀ a ∈ s.roster.agents, a.history.window = 100 ∧
      a.history.total = (served a.id ops).length := by
  let begun := (Sample.swarm.beginTask Sample.task none).1
  have hworld : World.Run World.anyLaw begun.world
      (begun.world.follow default Sample.inTurn).1 _ :=
    World.run_follow (fun _ _ => trivial) Sample.inTurn (by decide +kernel)
  have hreturned : ∃ results time, .returned 0 results time ∈
      (begun.world.follow default Sample.inTurn).1.seen := exists_returned (by decide +kernel)
  obtain ⟨results, time, hret⟩ := hreturned
  obtain ⟨acts, events, s', hrun, _, _⟩ := exists_run hworld fun agents task prompts hmem => by
    obtain ⟨a, ha⟩ := World.run_of_mem_follow _ hmem
    cases ha
  have hborn := Life.born (b := Sample.blueprint) Sample.build_blueprint
  obtain ⟨more, hlife, hdone⟩ := (hborn.step (.begin Sample.task none)).run hrun
  obtain ⟨hbooks, haccords, _⟩ := Life.books hlife
  refine ⟨_, s', hlife, ?_, fun a ha => ⟨(haccords a ha).window, (haccords a ha).total⟩⟩
  rw [hbooks.total, completedIn, List.filterMap_append, List.length_append]
  have hmem : (0, results) ∈ completedIn more := by
    rw [hdone]
    exact List.mem_filterMap.2 ⟨.completed 0 results, List.mem_filterMap.2 ⟨_, hret, rfl⟩, rfl⟩
  exact Nat.lt_add_left _ (List.length_pos_of_mem hmem)

end AgentSwarm.Swarm
