/-
**How far the quota of a partition reaches.**

An invocation takes a permit first and waits for its quota while it holds it.  So a quota reaches
beyond its partition: when those who wait for it hold all permits of the common pool, agents of other
partitions wait for permits, in the same batch and in other calls.

It reaches no further than that.  When calls are not given up, agents of the partition are in the last
batch of their call only, and the common pool has permits for all agents, then what can be seen of the
others is the same with the quota and without it: whatever happens to them with the quota at some
times, happens without it at the same times, and the other way round.  The proof lets the one executor
keep up with the other.  Steps that are shown are made by both; steps that are not are made by one;
and before the clock goes on in the one, the other makes the steps it has left that are not shown.
These come to an end, since every step leaves less to do.

Main definitions:

* `AgentSwarm.Executor.unlimited` — an executor without the quota of a partition;
* `AgentSwarm.World.Calm` — the conditions on calls and their agents;
* `AgentSwarm.World.outsideView`, `AgentSwarm.World.Shows` — **what can be seen of a run** outside a
  partition.

Main results:

* `AgentSwarm.World.Spared.free_pos` — there always is a permit;
* `AgentSwarm.World.exists_keepsUp` — **an executor may keep up with another one**;
* `AgentSwarm.World.shows_unlimited` — the quota of a partition does not show outside of it;
* `AgentSwarm.World.quota_shows` — but without permits for all it does.
-/

import AgentSwarm.Executor.Run
import AgentSwarm.Proofs.Executor.OutsideView
import AgentSwarm.Proofs.Executor.Progress
import Mathlib.Data.List.Perm.Subperm

set_option relaxedAutoImplicit false
set_option autoImplicit false

namespace AgentSwarm

open World (batchAgents ShownBeforeLast)

/-! ### Executors without a quota -/

/-- The executor without the quota of a partition. -/
def Executor.unlimited (x : Executor) (p : String) : Executor :=
  { x with settings := { x.settings with
      partitionQuotas := x.settings.partitionQuotas.filter (·.1 != p) } }

theorem Executor.sameBut_unlimited (x : Executor) (p : String) : SameBut p x (x.unlimited p) where
  strategy := rfl
  agentTimeout := rfl
  quotaOf q hq := by simp [quotaOf, unlimited, lookup_filter_ne, hq]

/-- What an executor does by itself: someone goes on, or time passes. -/
def Action.IsOwn : Action → Prop
  | .run _ _ | .pass _ => True
  | .begin _ _ _ | .cancel _ | .abandon _ => False

/-! ### Calls that keep a partition to their last batch -/

/-- Agents of a partition are in the last of some batches only. -/
def LastOnly (p : String) (agents : List Agent) (batches : List (List Nat)) : Prop :=
  ∀ batch ∈ batches.dropLast, ∀ place ∈ batch, ∀ agent, agents[place]? = some agent →
    agent.partition ≠ p

/-- A call that nobody gives up, with the agents of a partition in its last batch only. -/
structure TaskCall.Spared (p : String) (c : TaskCall) : Prop where
  kept : c.isCancelled = false
  placed : ∀ i ∈ c.live, c.agents[i.place]? = some i.agent
  shown : ShownBeforeLast p c
  last : LastOnly p c.agents c.remaining

namespace TaskCall.Spared

variable {p : String} {A : BackendLaw} {x : Executor} {now : Nat} {c d : TaskCall}
  {seen : List Occurrence}

/-- An invocation may be changed, but for its agent. -/
theorem adjust {place : Nat} {f : Invocation → Invocation} (h : c.Spared p)
    (hplace : ∀ j, (f j).place = j.place) (hagent : ∀ j, (f j).agent = j.agent) :
    (c.adjust place f).Spared p where
  kept := h.kept
  placed := by
    intro j hj
    obtain ⟨i, hi, rfl⟩ := List.mem_map.1 hj
    split
    · rw [hplace, hagent]
      exact h.placed i hi
    · exact h.placed i hi
  shown := h.shown.adjust hagent
  last := h.last

/-- The next batch is open: when others are to come, it has no agents of the partition. -/
theorem openNext {serial : Nat} {batch : List Nat} {rest : List (List Nat)} (h : c.Spared p)
    (hrem : c.remaining = batch :: rest) : (c.openNext now serial batch rest).Spared p where
  kept := h.kept
  placed i hi := (prepared_of_openBatch (fun _ hm => mem_batchAgents hm) i hi).place
  shown := by
    intro hne i hi
    have hplaced := (prepared_of_openBatch (fun _ hm => mem_batchAgents hm) i hi).place
    have hplaces := (c.live_openNext now serial batch rest).2
    refine h.last batch ?_ i.place (hplaces.subset (List.mem_map_of_mem hi)) _ hplaced
    rw [hrem, List.dropLast_cons_of_ne_nil (show rest ≠ [] from hne)]
    exact List.mem_cons_self
  last := by
    intro b hb
    refine h.last b ?_
    rw [hrem]
    cases rest with
    | nil => cases hb
    | cons b' rest => exact List.mem_cons_of_mem _ hb

/-- **The moves of a call keep a partition to its last batch.** -/
theorem move (h : c.Spared p) (hm : TaskCall.Move A x now c seen d) : d.Spared p := by
  cases hm with
  | start | wait | send => exact h.adjust (fun _ => rfl) fun _ => rfl
  | finish hunit _ =>
      refine ⟨h.kept, fun j hj => h.placed j (TaskCall.mem_live_without.1 hj).1, ?_, h.last⟩
      exact fun hne j hj => h.shown hne j (TaskCall.mem_live_without.1 hj).1
  | report _ => exact ⟨h.kept, h.placed, h.shown, h.last⟩
  | pause _ _ _ => exact ⟨h.kept, h.placed, h.shown, h.last⟩
  | dispatch _ _ hrem => exact h.openNext hrem

theorem moves (h : c.Spared p) (hm : TaskCall.Moves A x now c seen d) : d.Spared p := by
  induction hm with
  | refl => exact h
  | step _ hm ih => exact ih.move hm

/-- A call has no more invocations than agents. -/
theorem length_live_le (h : c.Spared p) (hn : (c.live.map (·.place)).Nodup) :
    c.live.length ≤ c.agents.length := by
  have hsub : c.live.map (·.place) ⊆ List.range c.agents.length := by
    intro place hplace
    obtain ⟨i, hi, rfl⟩ := List.mem_map.1 hplace
    obtain ⟨hlt, _⟩ := List.getElem?_eq_some_iff.1 (h.placed i hi)
    exact List.mem_range.2 hlt
  simpa using (hn.subperm hsub).length_le

end TaskCall.Spared

namespace World

variable {p : String} {A : BackendLaw} {x y : Executor} {u v w w' : World} {a : Actor}
  {c d : TaskCall} {i j : Invocation} {act : Action} {seen : List Occurrence} {trace : Trace}
  {response : Response} {t : Nat}

/-! ### Worlds with room for all -/

/-- The agents of all calls. -/
def roster (w : World) : Nat := (w.calls.map (·.agents.length)).sum

/-- **The conditions under which a quota does not reach beyond its partition**: calls keep it to their
last batch, and the common pool has permits for all agents. -/
structure Spared (p : String) (w : World) : Prop where
  sound : w.Sound
  awake : w.Awake fun _ => False
  calls : ∀ c ∈ w.calls, c.Spared p
  room : w.executor.strategy.routed = true ∨ w.roster ≤ w.executor.poolSize

namespace Spared

/-- **There always is a permit** for an invocation that has none. -/
theorem free_pos (h : Spared p w) (hr : w.executor.strategy.routed = false) (hi : w.Has c i)
    (hs : i.stage.holdsPermit = false) : 0 < (w.pool none).free := by
  have hroom := h.room.resolve_left (by simp [hr])
  have hone : ∀ j, w.executor.permitIn none j ≤ 1 := by
    intro j
    simp only [Executor.permitIn]
    split <;> omega
  have hheld : ∀ d ∈ w.calls, d.total (w.executor.permitIn none) ≤ d.agents.length := by
    intro d hd
    have hlive := (h.calls d hd).length_live_le (h.sound.listed.tidy d hd).places_nodup
    have htotal := TaskCall.total_le_length_mul (c := d) (n := 1) (w.executor.permitIn none)
      fun j _ => hone j
    omega
  -- one of the invocations of the call holds none
  have hless : c.total (w.executor.permitIn none) < c.agents.length := by
    have hn := (h.sound.listed.tidy c hi.mem_calls).places_nodup
    have hlive := (h.calls c hi.mem_calls).length_live_le hn
    have hlt : c.total (w.executor.permitIn none) < c.total fun _ => 1 :=
      List.sum_lt_sum _ _ (fun j _ => hone j)
        ⟨i, hi.mem_live, by simp [Executor.permitIn, hs]⟩
    have hones : (c.total fun _ => 1) = c.live.length := by simp [TaskCall.total]
    omega
  have hsum : w.held none < w.roster :=
    List.sum_lt_sum _ _ hheld ⟨c, hi.mem_calls, hless⟩
  have := h.sound.free_add_held none
  omega

/-- Nobody waits in the common pool. -/
theorem clear (h : Spared p w) : Clear p w where
  sound := h.sound
  uncrowded := by
    intro hr
    by_contra hne
    obtain ⟨b, rest, hcons⟩ := List.exists_cons_of_ne_nil hne
    obtain ⟨_, i, hunit, hs, _⟩ := (h.sound.queued.mem_iff none b).1 (by simp [hcons])
    obtain ⟨c, hi, _⟩ := Has.of_unit? hunit
    have := h.free_pos hr hi (by rw [hs]; rfl)
    have := h.sound.queued.busy none hne
    omega
  shown c hc := (h.calls c hc).shown

theorem hasPermit (h : Spared p w) (hi : w.Has c i) (hs : i.stage = .fresh) : Alike.HasPermit w :=
  fun hr => h.free_pos hr hi (by rw [hs]; rfl)

end Spared

/-! ### Steps of the executor itself -/

/-- What an executor does by itself brings no new calls, and moves the ones that are there. -/
theorem Step.call_of_mem (hstep : Step A w act seen w') (hs : w.Sound) (hact : act.IsOwn)
    (hd : d ∈ w'.calls) :
    ∃ c ∈ w.calls, ∃ later, TaskCall.Moves A w.executor w.now c later d := by
  have hs' := hstep.sound hs
  have hbegin : ∀ agents task prompts, act ≠ .begin agents task prompts := by
    rintro agents task prompts rfl
    exact hact
  have hlt := hs'.listed.id_lt d hd
  rw [hstep.nextCall_eq hbegin] at hlt
  rcases hstep.fate hs hlt with ⟨rfl, _⟩ | ⟨rfl, _⟩ | hfate
  · exact hact.elim
  · exact hact.elim
  · rw [call?_of_mem hs'.listed.ids_nodup hd] at hfate
    generalize hc : w.call? d.id = o, seenOf d.id seen = later at hfate
    cases hfate with
    | on hmoves => exact ⟨_, mem_calls_of_call? hc, _, hmoves⟩

/-- The moves of a call do not change what it was begun with. -/
theorem brief_eq_of_moves {now : Nat} (hm : TaskCall.Moves A x now c seen d) : d.brief = c.brief := by
  induction hm with
  | refl => rfl
  | step _ hm ih => exact hm.brief_eq.trans ih

/-- By itself an executor gets no more agents. -/
theorem Step.roster_le (hstep : Step A w act seen w') (hs : w.Sound) (hact : act.IsOwn) :
    w'.roster ≤ w.roster := by
  have hroster : ∀ v : World, v.roster = ((v.calls.map (·.brief)).map (·.agents.length)).sum := by
    intro v
    simp only [roster, List.map_map]
    rfl
  have hnodup : (w'.calls.map (·.brief)).Nodup := by
    have hids := (hstep.sound hs).listed.ids_nodup
    have hmap : w'.calls.map (·.id) = (w'.calls.map (·.brief)).map (·.id) := by
      rw [List.map_map]
      rfl
    rw [hmap] at hids
    exact hids.of_map
  have hsub : w'.calls.map (·.brief) ⊆ w.calls.map (·.brief) := by
    intro b hb
    obtain ⟨d, hd, rfl⟩ := List.mem_map.1 hb
    obtain ⟨c, hc, _, hmoves⟩ := hstep.call_of_mem hs hact hd
    exact List.mem_map.2 ⟨c, hc, (brief_eq_of_moves hmoves).symm⟩
  obtain ⟨l, hperm, hsublist⟩ := hnodup.subperm hsub
  rw [hroster, hroster, ← (hperm.map _).sum_eq]
  exact (hsublist.map _).sum_le_sum fun _ _ => Nat.zero_le _

/-- **What an executor does by itself keeps the conditions.** -/
theorem Step.spared (hstep : Step A w act seen w') (h : Spared p w) (hact : act.IsOwn) :
    Spared p w' where
  sound := hstep.sound h.sound
  awake := hstep.awake h.sound h.awake
  calls := by
    intro d hd
    obtain ⟨c, hc, _, hmoves⟩ := hstep.call_of_mem h.sound hact hd
    exact (h.calls c hc).moves hmoves
  room := by
    have hroster := hstep.roster_le h.sound hact
    rw [hstep.executor_eq]
    exact h.room.imp_right (Nat.le_trans hroster)

theorem roster_beginCall (w : World) (agents : List Agent) (task : Task) (prompts : PromptBuilder) :
    (w.beginCall agents task prompts).roster = w.roster + agents.length := by
  simp [roster, beginCall, wake]

/-- A call may begin that keeps the partition to its last batch. -/
theorem Spared.beginCall {agents : List Agent} (h : Spared p w) (task : Task)
    (prompts : PromptBuilder) (hlast : LastOnly p agents (w.executor.batches agents))
    (hroom : w.executor.strategy.routed = true ∨ w.roster + agents.length ≤ w.executor.poolSize) :
    Spared p (w.beginCall agents task prompts) where
  sound := h.sound.beginCall agents task prompts
  awake := h.awake.beginCall h.sound agents task prompts
  calls := by
    intro c hc
    rcases List.mem_append.1 hc with hc | hc
    · exact h.calls c hc
    · obtain rfl := List.mem_singleton.1 hc
      exact ⟨rfl, by simp, fun _ => by simp, hlast⟩
  room := by
    rw [roster_beginCall]
    exact hroom

/-! ### Calm runs -/

/-- The agents of the calls that begin. -/
def rosters (acts : List Action) : List (List Agent) :=
  acts.filterMap fun
    | .begin agents _ _ => some agents
    | _ => none

theorem rosters_append (acts later : List Action) :
    rosters (acts ++ later) = rosters acts ++ rosters later :=
  List.filterMap_append

/-- What an executor does by itself begins no calls. -/
theorem rosters_of_isOwn {acts : List Action} (h : ∀ act ∈ acts, act.IsOwn) : rosters acts = [] := by
  refine List.filterMap_eq_nil_iff.2 fun act hact => ?_
  have hown := h act hact
  cases act with
  | begin => exact hown.elim
  | run | cancel | abandon | pass => rfl

/-- **What is done is calm**: no call is given up, the agents of a partition are in the last batch of
their call only, and a common pool has permits for all agents. -/
structure Calm (p : String) (x : Executor) (acts : List Action) : Prop where
  kept : ∀ act ∈ acts, ∀ k, act ≠ .cancel k ∧ act ≠ .abandon k
  last : ∀ agents ∈ rosters acts, LastOnly p agents (x.batches agents)
  room : x.strategy.routed = true ∨ ((rosters acts).map List.length).sum ≤ x.poolSize

namespace Calm

variable {acts later : List Action}

theorem of_append (h : Calm p x (acts ++ later)) : Calm p x acts where
  kept act hact := h.kept act (by simp [hact])
  last agents hagents := h.last agents (by simp [rosters_append, hagents])
  room := by
    refine h.room.imp_right fun hle => Nat.le_trans ?_ hle
    rw [rosters_append, List.map_append, List.sum_append]
    exact Nat.le_add_right _ _

/-- What the executor does by itself leaves all calm. -/
theorem append_own (h : Calm p x acts) (hown : ∀ act ∈ later, act.IsOwn) :
    Calm p x (acts ++ later) where
  kept act hact k := by
    rcases List.mem_append.1 hact with hact | hact
    · exact h.kept act hact k
    · constructor
      · rintro rfl
        exact hown _ hact
      · rintro rfl
        exact hown _ hact
  last := by
    rw [rosters_append, rosters_of_isOwn hown, List.append_nil]
    exact h.last
  room := by
    rw [rosters_append, rosters_of_isOwn hown, List.append_nil]
    exact h.room

/-- With the same calls it is as calm in an executor that differs in the quota only. -/
theorem transfer (h : Calm p x acts) (hxy : x.SameBut p y)
    (hkept : ∀ act ∈ later, ∀ k, act ≠ .cancel k ∧ act ≠ .abandon k)
    (hrosters : rosters later = rosters acts) : Calm p y later where
  kept := hkept
  last := by
    intro agents hagents
    rw [hrosters] at hagents
    rw [← hxy.batches_eq]
    exact h.last agents hagents
  room := by
    rw [hrosters, Executor.poolSize, ← hxy.strategy]
    exact h.room

end Calm

/-- The actions of a run that goes on. -/
theorem map_fst_append (trace : Trace) (act : Action) (seen : List Occurrence) :
    (trace ++ [(act, seen)]).map Prod.fst = trace.map Prod.fst ++ [act] := by
  rw [List.map_append, List.map_singleton]

/-- The conditions hold along a calm run. -/
theorem Run.spared (hrun : Run A (idle x) trace w) (hcalm : Calm p x (trace.map Prod.fst)) :
    Spared p w ∧ w.roster ≤ ((rosters (trace.map Prod.fst)).map List.length).sum := by
  induction hrun with
  | refl =>
      refine ⟨⟨sound_idle x, ?_, ?_, .inr (Nat.zero_le _)⟩, le_rfl⟩
      · exact Reachable.awake ⟨[], .refl⟩
      · exact fun c hc => absurd hc List.not_mem_nil
  | @step trace v v' act seen hrun hlaw hs ih =>
      rw [map_fst_append] at hcalm
      obtain ⟨hv, hroster⟩ := ih hcalm.of_append
      have hstep := step_of_step? hs hlaw
      have hexec : v.executor = x := (hrun.sound (sound_idle x)).2.1
      have hkept := hcalm.kept act (by simp)
      have hlast := hcalm.last
      have hroom := hcalm.room
      rw [map_fst_append, rosters_append, List.map_append, List.sum_append]
      rw [rosters_append, List.map_append, List.sum_append] at hroom
      cases act with
      | begin agents task prompts =>
          have hrosters : rosters [.begin agents task prompts] = [agents] := rfl
          rw [hrosters, List.map_singleton, List.sum_singleton] at hroom ⊢
          obtain ⟨rfl, _⟩ := Prod.mk.inj (Option.some.inj hs)
          refine ⟨hv.beginCall task prompts ?_ ?_, ?_⟩
          · rw [hexec]
            exact hlast agents (by simp [rosters_append, hrosters])
          · rw [hexec]
            exact hroom.imp_right fun hle => by omega
          · rw [roster_beginCall]
            omega
      | run a response =>
          exact ⟨hstep.spared hv trivial,
            (hstep.roster_le hv.sound trivial).trans (Nat.le_add_right_of_le hroster)⟩
      | pass time =>
          exact ⟨hstep.spared hv trivial,
            (hstep.roster_le hv.sound trivial).trans (Nat.le_add_right_of_le hroster)⟩
      | cancel k => exact absurd rfl (hkept k).1
      | abandon k => exact absurd rfl (hkept k).2

/-! ### What is seen from outside -/

/-- Whether a step shows: a call begins, or an invocation for an agent of another partition goes
on. -/
def isOutside (p : String) (w : World) : Action → Bool
  | .begin _ _ _ => true
  | .run a _ => (w.partitionOf? a).any (· != p)
  | .cancel _ | .abandon _ | .pass _ => false

/-- What can be seen of a step outside a partition, with its time. -/
def outsideEntry (p : String) (w : World) (act : Action) (seen : List Occurrence) :
    List (Nat × Action × List Occurrence) :=
  if w.isOutside p act then [(w.now, act, seen)] else []

/-- **What can be seen of a run outside a partition**: the calls that begin, and the steps of the
invocations for agents of other partitions with all that was seen of them, each with its time. -/
def outsideView (p : String) : World → Trace → List (Nat × Action × List Occurrence)
  | _, [] => []
  | w, (act, seen) :: rest => w.outsideEntry p act seen ++ outsideView p (w.after act) rest

/-- A run that goes on. -/
theorem Run.outsideView_append {later : Trace} (hrun : Run A w trace v) :
    outsideView p w (trace ++ later) = outsideView p w trace ++ outsideView p v later := by
  have happend : ∀ (h h' : Trace) (w : World), outsideView p w (h ++ h') =
      outsideView p w h ++ outsideView p ((h.map Prod.fst).foldl after w) h' := by
    intro h h'
    induction h with
    | nil => exact fun _ => rfl
    | cons entry rest ih =>
        intro w
        simp only [List.cons_append, outsideView, List.map_cons, List.foldl_cons, ih,
          List.append_assoc]
  rw [happend, hrun.foldl_after]

theorem outsideView_singleton (p : String) (w : World) (act : Action) (seen : List Occurrence) :
    outsideView p w [(act, seen)] = w.outsideEntry p act seen :=
  List.append_nil _

/-- A step of an invocation for an agent of another partition shows. -/
theorem Has.isOutside (hi : w.Has c i) (hout : i.agent.partition ≠ p) (response : Response) :
    w.isOutside p (.run (actorOf c i) response) = true := by
  simpa [World.isOutside, partitionOf?, hi.unit?] using hout

/-- A step of someone who is not shown does not show. -/
theorem isOutside_eq_false (ha : w.sight p a = none) (response : Response) :
    w.isOutside p (.run a response) = false := by
  simp only [World.isOutside, partitionOf?]
  cases hunit : w.unit? a with
  | none => rfl
  | some i =>
      obtain ⟨c, hi, rfl⟩ := Has.of_unit? hunit
      simp [hi.inside ha]

/-! ### Steps that are shown -/

/-- Whom an actor shows: an invocation for an agent of another partition, or a caller with a batch to
come. -/
theorem sight_cases (ha : w.sight p a ≠ none) :
    (∃ c i, w.Has c i ∧ a = actorOf c i ∧ i.agent.partition ≠ p) ∨
      ∃ c, w.call? c.id = some c ∧ a = .caller c.id ∧ c.remaining ≠ [] := by
  obtain ⟨s, hs⟩ := Option.ne_none_iff_exists'.1 ha
  obtain ⟨c, hc, hshown⟩ := Option.bind_eq_some_iff.1 hs
  obtain hid := id_of_call? hc
  cases a with
  | caller k =>
      obtain rfl : c.id = k := hid
      obtain ⟨hrem, _⟩ := Option.ite_none_left_eq_some.1 hshown
      exact .inr ⟨c, hc, rfl, hrem⟩
  | invocation k place =>
      obtain rfl : c.id = k := hid
      obtain ⟨i, hi, _⟩ := Option.map_eq_some_iff.1 hshown
      obtain ⟨hi, hout⟩ := Option.filter_eq_some_iff.1 hi
      obtain rfl := TaskCall.place_of_invocation? hi
      exact .inl ⟨c, i, ⟨hc, hi⟩, rfl, by simpa using hout⟩

theorem Has.runActor (hi : w.Has c i) (response : Response) : w.runActor (actorOf c i) response =
    (w.rise (actorOf c i)).runInvocation c i response := by
  have hcall : (w.rise (actorOf c i)).call? c.id = some c := hi.call
  simp only [World.runActor, actorOf, Actor.call]
  rw [show ({ w with ready := w.ready.erase (.invocation c.id i.place) } : World).call? c.id = some c
    from hcall]
  simp only [hi.unit]
  rfl

theorem runActor_caller (hc : w.call? c.id = some c) (response : Response) :
    w.runActor (.caller c.id) response = (w.rise (.caller c.id)).runCaller c := by
  have hcall : (w.rise (.caller c.id)).call? c.id = some c := hc
  simp only [World.runActor, Actor.call]
  rw [show ({ w with ready := w.ready.erase (.caller c.id) } : World).call? c.id = some c from hcall]
  rfl

namespace Alike

theorem rise_of_spared (h : Alike p w v) (hw : Spared p w) (hv : Spared p v) (a : Actor) :
    Alike p (w.rise a) (v.rise a) :=
  h.rise (List.nodup_append.1 hw.awake.nodup).2.1 (List.nodup_append.1 hv.awake.nodup).2.1 a

/-- A step of the same invocation. -/
theorem runActor_unit (h : Alike p w v) (hw : Spared p w) (hv : Spared p v) (hi : w.Has c i)
    (hj : v.Has d i) (hbrief : d.brief = c.brief) (hout : i.agent.partition ≠ p)
    (response : Response) :
    Alike p (w.runActor (actorOf c i) response).1 (v.runActor (actorOf d i) response).1 ∧
      (w.runActor (actorOf c i) response).2 = (v.runActor (actorOf d i) response).2 := by
  have hactor : actorOf d i = actorOf c i := by
    rw [actorOf, actorOf, show d.id = c.id from congrArg Brief.id hbrief]
  have hrise := h.rise_of_spared hw hv (actorOf c i)
  rw [hi.runActor, hj.runActor, hactor]
  exact hrise.runInvocation (hw.clear.congr rfl rfl rfl rfl) (hv.clear.congr rfl rfl rfl rfl)
    ⟨hi.call, hi.unit⟩ ⟨hj.call, hj.unit⟩ hbrief hout (hw.calls c hi.mem_calls).kept
    (hv.calls d hj.mem_calls).kept (hw.hasPermit hi) (hv.hasPermit hj) response

/-- A step of the same caller. -/
theorem runActor_caller (h : Alike p w v) (hw : Spared p w) (hv : Spared p v)
    (hc : w.call? c.id = some c) (hrem : c.remaining ≠ []) (response : Response) :
    Alike p (w.runActor (.caller c.id) response).1 (v.runActor (.caller c.id) response).1 := by
  obtain ⟨d, hd, hbrief, hremaining, hdispatched, hpausing⟩ := h.caller hc hrem
  have hid : d.id = c.id := congrArg Brief.id hbrief
  have hrise := h.rise_of_spared hw hv (.caller c.id)
  have hcmem := mem_calls_of_call? hc
  have hdmem := mem_calls_of_call? hd
  have haway : ∀ {u : World} {e : TaskCall}, u.Awake (fun _ => False) → u.call? c.id = some e →
      e.live = [] → ∀ place, (u.rise (.caller c.id)).Away (.invocation c.id place) :=
    fun hu he hlive place => (hu.rise _).away (standing?_eq_none (w := World.rise _ _) place he hlive)
  have hlive : c.live = [] ↔ d.live = [] := by
    constructor
    · refine h.live_eq_nil hc (hid ▸ hd) hid ((hv.calls d hdmem).shown ?_)
      rwa [hremaining]
    · exact h.symm.live_eq_nil (hid ▸ hd) hc hid.symm ((hw.calls c hcmem).shown hrem)
  rw [World.runActor_caller hc]
  rw [← hid] at hd
  rw [← hid, World.runActor_caller hd]
  rw [hid] at hd ⊢
  exact hrise.runCaller hc (hid.symm ▸ hd) hbrief hrem hremaining hdispatched hpausing
    (hw.calls c hcmem).kept (hv.calls d hdmem).kept hlive (haway hw.awake hc)
    fun hnil => haway hv.awake hd (hlive.1 hnil)

/-- **A step that is shown is made in both worlds**, and the same is seen of an invocation. -/
theorem step_shown (h : Alike p w v) (hw : Spared p w) (hv : Spared p v)
    (ha : w.sight p a ≠ none) (hlaw : Lawful A w (.run a response))
    (hs : w.step? (.run a response) = some (w', seen)) :
    ∃ v' seen', Lawful A v (.run a response) ∧ v.step? (.run a response) = some (v', seen') ∧
      Alike p w' v' ∧
      v.outsideEntry p (.run a response) seen' = w.outsideEntry p (.run a response) seen := by
  simp only [step?, Option.ite_none_right_eq_some, Option.some.injEq] at hs
  obtain ⟨hready, hs⟩ := hs
  have hstep : v.step? (.run a response) =
      some ((v.runActor a response).1, (v.runActor a response).2) := by
    simp [step?, (h.ready a ha).1 hready]
  rcases sight_cases ha with ⟨c, i, hi, rfl, hout⟩ | ⟨c, hc, rfl, hrem⟩
  · obtain ⟨d, hj, hbrief⟩ := h.has hi hout
    have hactor : actorOf d i = actorOf c i := by
      rw [actorOf, actorOf, show d.id = c.id from congrArg Brief.id hbrief]
    obtain ⟨halike, hseen⟩ := h.runActor_unit hw hv hi hj hbrief hout response
    have hrequest := h.request?_eq hi hj hbrief hout (hw.calls c hi.mem_calls).kept
      (hv.calls d hj.mem_calls).kept (hw.hasPermit hi) (hv.hasPermit hj)
    have houtside := hj.isOutside hout response
    rw [hactor, hs] at halike hseen
    rw [hactor] at hrequest houtside
    refine ⟨_, _, fun request hr => hlaw request (hrequest ▸ hr), hstep, halike, ?_⟩
    rw [outsideEntry, outsideEntry, houtside, hi.isOutside hout, h.now, ← hseen]
  · have halike := h.runActor_caller hw hv hc hrem response
    rw [hs] at halike
    refine ⟨_, _, ?_, hstep, halike, rfl⟩
    -- callers send no requests
    intro request hrequest
    simp only [request?] at hrequest
    split at hrequest <;> cases hrequest

/-- What an actor shows after a call has begun. -/
theorem sight_beginCall (hl : w.Listed) (agents : List Agent) (task : Task) (prompts : PromptBuilder)
    (a : Actor) : (w.beginCall agents task prompts).sight p a =
      if a.call = w.nextCall then (newCall w agents task prompts).sight p a else w.sight p a := by
  simp only [World.sight]
  split
  next ha => rw [ha, hl.call?_beginCall_self, Option.bind_some]
  next ha => rw [call?_beginCall w agents task prompts ha]

/-- **The same call begins.** -/
theorem beginCall (h : Alike p w v) (hw : Spared p w) (hv : Spared p v) (agents : List Agent)
    (task : Task) (prompts : PromptBuilder) :
    Alike p (w.beginCall agents task prompts) (v.beginCall agents task prompts) := by
  have hnew : ∀ a, (newCall v agents task prompts).sight p a =
      (newCall w agents task prompts).sight p a := by
    refine sight_eq p ?_ ?_ rfl rfl rfl
    · simp only [TaskCall.brief, newCall, h.nextCall]
    · simp only [newCall, h.executor.batches_eq]
  -- nobody of the new call is in a list
  have haway : ∀ {u : World}, Spared p u → ∀ a : Actor, a.call = u.nextCall → u.Away a := by
    intro u hu a ha
    refine hu.awake.away ?_
    simp only [standing?, ha, hu.sound.listed.call?_nextCall, Option.bind_none]
  have hold : ∀ a, (w.beginCall agents task prompts).sight p a ≠ none →
      w.sight p a ≠ none ∨ w.Away a ∧ v.Away a := by
    intro a ha
    rw [sight_beginCall hw.sound.listed] at ha
    split at ha
    next hcall => exact .inr ⟨haway hw a hcall, haway hv a (hcall.trans h.nextCall)⟩
    next => exact .inl ha
  refine { h with nextCall := congrArg (· + 1) h.nextCall, sight := ?_, ready := ?_
                  alarms := fun t a ha => (h.lists (hold a ha)).2 t }
  · intro a
    rw [sight_beginCall hw.sound.listed, sight_beginCall hv.sound.listed, h.nextCall, hnew]
    split
    · rfl
    · exact h.sight a
  · intro a ha
    have hlists := (h.lists (hold a ha)).1
    simp only [World.beginCall, mem_ready_wake, h.nextCall]
    exact or_congr_left hlists

end Alike

/-! ### Keeping up -/

/-- Nobody who is ready is shown when nobody is in a world that is alike. -/
theorem Alike.sight_eq_none (h : Alike p w v) (hready : w.ready = []) (ha : a ∈ v.ready) :
    v.sight p a = none := by
  by_contra hne
  have hmem := (h.symm.ready a hne).1 ha
  rw [hready] at hmem
  cases hmem

/-- The clock changes nothing else when no alarm is due. -/
theorem passTo_eq (halarms : ∀ alarm ∈ w.alarms, t < alarm.1) : w.passTo t = { w with now := t } := by
  have hdue : w.alarms.filter (fun alarm => decide (alarm.1 ≤ t)) = [] := by
    refine List.filter_eq_nil_iff.2 fun alarm hmem => ?_
    simpa using halarms alarm hmem
  have hlater : w.alarms.filter (fun alarm => !decide (alarm.1 ≤ t)) = w.alarms := by
    refine List.filter_eq_self.2 fun alarm hmem => ?_
    simpa using halarms alarm hmem
  simp only [passTo, hdue, hlater, List.map_nil, List.append_nil]

theorem Tick.isOwn (h : Tick A w act seen w') : act.IsOwn := by cases h <;> trivial

/-- A tick by itself is a run. -/
theorem Tick.single (h : Tick A w act seen w') : Run A w [(act, seen)] w' := by
  cases h with
  | run hlaw hs => exact .step (h := []) .refl hlaw hs
  | pass _ hs => exact .step (h := []) .refl trivial hs

/-- While nobody is ready in the one world and its clock may go to a time, the clock of the other may
go there too, or it has a step to make that does not show. -/
theorem exists_silent_tick (hA : ∀ k request, ∃ response, A k request response) (hv : Spared p v)
    (h : Alike p { w with now := v.now } v) (hready : w.ready = []) (hle : v.now ≤ t)
    (halarms : ∀ alarm ∈ w.alarms, t ≤ alarm.1) :
    (v.ready = [] ∧ ∀ alarm ∈ v.alarms, t ≤ alarm.1) ∨
      ∃ act seen v', Tick A v act seen v' ∧ v.outsideEntry p act seen = [] ∧ v'.now ≤ t ∧
        Alike p { w with now := v'.now } v' := by
  rcases List.eq_nil_or_concat v.ready with hnil | ⟨others, b, hconcat⟩
  · by_cases hlate : ∀ alarm ∈ v.alarms, t ≤ alarm.1
    · exact .inl ⟨hnil, hlate⟩
    · -- the next alarm of the other world is not shown
      obtain ⟨alarm, hmem, hlt⟩ : ∃ alarm ∈ v.alarms, alarm.1 < t := by simpa using hlate
      obtain ⟨next, hnext⟩ : ∃ next, v.nextAlarm = some next := by
        rw [← Option.isSome_iff_exists, nextAlarm, List.isSome_min?_iff]
        exact List.ne_nil_of_mem (List.mem_map_of_mem hmem)
      have hmin : next ≤ alarm.1 :=
        (List.min?_eq_some_iff.1 hnext).2 _ (List.mem_map_of_mem hmem)
      have hpass := h.passTo next
      rw [passTo_eq (w := { w with now := v.now }) fun e he => by
        have := halarms e he
        omega] at hpass
      exact .inr ⟨_, _, _, tick_pass hv.awake hnil hnext, rfl, by
        change next ≤ t
        omega, hpass⟩
  · have hmem : b ∈ v.ready := by simp [hconcat]
    have hb := h.sight_eq_none hready hmem
    obtain ⟨response, hlaw⟩ := exists_lawful (w := v) (a := b) fun request _ => hA b.call request
    have hstep : v.step? (.run b response) =
        some ((v.runActor b response).1, (v.runActor b response).2) := by simp [step?, hmem]
    obtain ⟨_, hturn⟩ := turn_of_step? hstep hlaw
    have hnow : (v.runActor b response).1.now = v.now := hturn.steady.now
    refine .inr ⟨_, _, _, .run hlaw hstep, ?_, hnow.le.trans hle, ?_⟩
    · rw [outsideEntry, isOutside_eq_false hb, if_neg Bool.false_ne_true]
    · rw [hnow]
      exact h.trans (hturn.alike hv.clear hb)

/-- **An executor may keep up with another one.**  While nobody is ready in the one and its clock may
go to a time, the other makes the steps it has left until then, and none of them shows. -/
theorem exists_keepsUp (hA : ∀ k request, ∃ response, A k request response) (hv : Spared p v)
    (h : Alike p { w with now := v.now } v) (hready : w.ready = []) (hle : v.now ≤ t)
    (halarms : ∀ alarm ∈ w.alarms, t ≤ alarm.1) :
    ∃ steps v', Run A v steps v' ∧ (∀ act ∈ steps.map Prod.fst, act.IsOwn) ∧
      outsideView p v steps = [] ∧ Alike p (w.passTo t) v' := by
  -- the induction is on what is left to do
  induction hmeasure : v.measure using WellFoundedLT.induction generalizing v with
  | ind measure ih =>
      rcases exists_silent_tick hA hv h hready hle halarms with
        ⟨hnil, hlate⟩ | ⟨act, seen, v₁, htick, hsilent, hle₁, h₁⟩
      · have hstep : v.step? (.pass t) = some (v.passTo t, []) := by
          have hmay : v.mayPassTo t = true := by simpa [mayPassTo, hnil, hle] using hlate
          simp [step?, hmay]
        refine ⟨[(.pass t, [])], v.passTo t, .step (h := []) .refl trivial hstep, ?_, rfl, h.passTo t⟩
        simp [Action.IsOwn]
      · have hlt := htick.measure_lt hv.sound hv.awake
        rw [hmeasure] at hlt
        obtain ⟨steps, v', hrun, hown, hout, hend⟩ :=
          ih _ hlt (htick.step.spared hv htick.isOwn) h₁ hle₁ rfl
        refine ⟨(act, seen) :: steps, v', htick.single.trans hrun, ?_, ?_, hend⟩
        · intro act' hact
          rcases List.mem_cons.1 hact with rfl | hact
          · exact htick.isOwn
          · exact hown act' hact
        · rw [← List.singleton_append, htick.single.outsideView_append, outsideView_singleton,
            hsilent, hout, List.append_nil]

/-! ### Two executors -/

/-- A run of an executor that keeps up with a run of another one: it is calm, the same calls begin,
and it shows the same. -/
structure Keeping (A : BackendLaw) (p : String) (x y : Executor) (trace trace' : Trace) (w v : World) :
    Prop where
  run : Run A (idle y) trace' v
  calm : Calm p y (trace'.map Prod.fst)
  rosters : rosters (trace'.map Prod.fst) = rosters (trace.map Prod.fst)
  outsideView : outsideView p (idle y) trace' = outsideView p (idle x) trace
  alike : Alike p w v

namespace Keeping

variable {trace' steps : Trace} {w₁ v₁ : World}

/-- Two executors begin without calls. -/
theorem idle (hxy : x.SameBut p y) : Keeping A p x y [] [] (World.idle x) (World.idle y) where
  run := .refl
  calm := ⟨fun _ h => absurd h List.not_mem_nil, fun _ h => absurd h List.not_mem_nil,
    .inr (Nat.zero_le _)⟩
  rosters := rfl
  outsideView := rfl
  alike :=
    { executor := hxy, now := rfl, nextCall := rfl, nextSerial := rfl, sight := fun _ => rfl
      ready := fun _ _ => Iff.rfl, alarms := fun _ _ _ => Iff.rfl, dues := fun _ _ => rfl
      pool := fun q _ => by
        have hsize : x.poolSize = y.poolSize := by simp only [Executor.poolSize, hxy.strategy]
        simp [pool, World.idle, hsize] }

/-- A step of the one executor, and steps of the other that show the same. -/
theorem next (h : Keeping A p x y trace trace' w v) (hrun : Run A (World.idle x) trace w)
    (hsteps : Run A v steps v₁) (hcalm : Calm p y (trace'.map Prod.fst ++ steps.map Prod.fst))
    (hrosters : World.rosters (steps.map Prod.fst) = World.rosters [act])
    (hshows : World.outsideView p v steps = w.outsideEntry p act seen) (halike : Alike p w₁ v₁) :
    Keeping A p x y (trace ++ [(act, seen)]) (trace' ++ steps) w₁ v₁ where
  run := h.run.trans hsteps
  calm := by
    rw [List.map_append]
    exact hcalm
  rosters := by
    rw [List.map_append, map_fst_append, rosters_append, rosters_append, h.rosters, hrosters]
  outsideView := by
    rw [h.run.outsideView_append, hrun.outsideView_append, h.outsideView, hshows,
      outsideView_singleton]
  alike := halike

/-- The same call begins with both executors. -/
theorem begin (h : Keeping A p x y trace trace' w v) (hxy : x.SameBut p y)
    (hrun : Run A (World.idle x) trace w) {agents : List Agent} {task : Task}
    {prompts : PromptBuilder}
    (hcalm : Calm p x (trace.map Prod.fst ++ [.begin agents task prompts])) :
    Keeping A p x y (trace ++ [(.begin agents task prompts, [])])
      (trace' ++ [(.begin agents task prompts, [])]) (w.beginCall agents task prompts)
      (v.beginCall agents task prompts) := by
  have hw := (hrun.spared hcalm.of_append).1
  have hv := (h.run.spared h.calm).1
  refine h.next hrun (.step (h := []) .refl trivial rfl) (hcalm.transfer hxy ?_ ?_) rfl ?_
    (h.alike.beginCall hw hv agents task prompts)
  · intro act hact k
    rcases List.mem_append.1 hact with hact | hact
    · exact h.calm.kept act hact k
    · obtain rfl := List.mem_singleton.1 hact
      simp
  · rw [rosters_append, rosters_append, h.rosters]
    rfl
  · rw [outsideView_singleton, outsideEntry, outsideEntry, h.alike.now]
    rfl

/-- Someone goes on in the one world, and in the other if it shows. -/
theorem turn (h : Keeping A p x y trace trace' w v) (hrun : Run A (World.idle x) trace w)
    (hcalm : Calm p x (trace.map Prod.fst)) {response : Response}
    (hlaw : Lawful A w (.run a response)) (hs : w.step? (.run a response) = some (w₁, seen)) :
    ∃ trace₁ v₁, Keeping A p x y (trace ++ [(.run a response, seen)]) trace₁ w₁ v₁ := by
  have hw := (hrun.spared hcalm).1
  have hv := (h.run.spared h.calm).1
  by_cases ha : w.sight p a = none
  · obtain ⟨_, hturn⟩ := turn_of_step? hs hlaw
    have halike := (hturn.alike hw.clear ha).symm.trans h.alike
    refine ⟨trace' ++ [], v, h.next hrun .refl (h.calm.append_own (by simp)) rfl ?_ halike⟩
    rw [outsideEntry, isOutside_eq_false ha, if_neg Bool.false_ne_true]
    rfl
  · obtain ⟨v₁, seen₁, hlaw₁, hs₁, halike, hshows⟩ := h.alike.step_shown hw hv ha hlaw hs
    refine ⟨trace' ++ [(.run a response, seen₁)], v₁, h.next hrun
      (.step (h := []) .refl hlaw₁ hs₁) (h.calm.append_own ?_) rfl ?_ halike⟩
    · simp [Action.IsOwn]
    · rw [outsideView_singleton, hshows]

/-- The clock goes on in the one world, and the other keeps up. -/
theorem pass (h : Keeping A p x y trace trace' w v) (hrun : Run A (World.idle x) trace w)
    (hA : ∀ k request, ∃ response, A k request response) (hready : w.ready = []) (hle : w.now ≤ t)
    (halarms : ∀ alarm ∈ w.alarms, t ≤ alarm.1) :
    ∃ trace₁ v₁, Keeping A p x y (trace ++ [(.pass t, [])]) trace₁ (w.passTo t) v₁ := by
  have hv := (h.run.spared h.calm).1
  have hsame : ({ w with now := v.now } : World) = w := by rw [← h.alike.now]
  obtain ⟨steps, v₁, hsteps, hown, hshows, halike⟩ := exists_keepsUp hA hv (w := w)
    (by rw [hsame]; exact h.alike) hready (h.alike.now ▸ hle) halarms
  exact ⟨_, v₁, h.next hrun hsteps (h.calm.append_own hown) (rosters_of_isOwn hown) hshows halike⟩

end Keeping

/-- **Of two executors that differ in the quota of a partition the one can keep up with the other.** -/
theorem Run.keeping (hrun : Run A (idle x) trace w)
    (hA : ∀ k request, ∃ response, A k request response) (hxy : x.SameBut p y)
    (hcalm : Calm p x (trace.map Prod.fst)) : ∃ trace' v, Keeping A p x y trace trace' w v := by
  induction hrun with
  | refl => exact ⟨[], idle y, .idle hxy⟩
  | @step trace w w₁ act seen hrun hlaw hs ih =>
      rw [map_fst_append] at hcalm
      obtain ⟨trace', v, h⟩ := ih hcalm.of_append
      have hkept := hcalm.kept act (by simp)
      cases act with
      | begin agents task prompts =>
          obtain ⟨rfl, rfl⟩ := Prod.mk.inj (Option.some.inj hs)
          exact ⟨_, _, h.begin hxy hrun hcalm⟩
      | run a response => exact h.turn hrun hcalm.of_append hlaw hs
      | pass time =>
          cases step_of_step? (A := A) hs hlaw with
          | pass hready hle halarms => exact h.pass hrun hA hready hle halarms
      | cancel k => exact absurd rfl (hkept k).1
      | abandon k => exact absurd rfl (hkept k).2

/-- What an executor can show outside a partition up to a time, in a calm run. -/
def Shows (A : BackendLaw) (p : String) (x : Executor) (time : Nat)
    (view : List (Nat × Action × List Occurrence)) : Prop :=
  ∃ trace w, Run A (idle x) trace w ∧ Calm p x (trace.map Prod.fst) ∧ w.now = time ∧
    outsideView p (idle x) trace = view

/-- **The quota of a partition does not show outside of it.**  Let the backend answer every request,
whatever the calls and however they overlap.  When no call is given up, agents of the partition are in
the last batch of their call only, and the partitions have pools of their own or the common pool has
permits for all agents, then whatever the agents of other partitions can be seen to do with the quota
up to a time — which requests are sent, when, and when they end — they can be seen to do without it,
and the other way round. -/
theorem shows_unlimited (hA : ∀ k request, ∃ response, A k request response) (p : String)
    (x : Executor) (time : Nat) (view : List (Nat × Action × List Occurrence)) :
    Shows A p x time view ↔ Shows A p (x.unlimited p) time view := by
  have hone : ∀ {x y : Executor}, x.SameBut p y → Shows A p x time view → Shows A p y time view := by
    rintro x y hxy ⟨trace, w, hrun, hcalm, rfl, rfl⟩
    obtain ⟨trace', v, h⟩ := hrun.keeping hA hxy hcalm
    exact ⟨trace', v, h.run, h.calm, h.alike.now.symm, h.outsideView⟩
  exact ⟨hone (x.sameBut_unlimited p), hone (x.sameBut_unlimited p).symm⟩

end World

namespace Sample

/-- An agent of a partition. -/
def member (id partition : String) : Agent :=
  .create id "analyst" default partition defaultProfile 1

/-- An executor with a quota for the partition `p`, with permits for as many agents as it says. -/
def ample (n : Nat) : Executor :=
  ⟨⟨"ample", n, .zero, false, "Many requests at a time"⟩,
    { ExecutorSettings.standard with partitionQuotas := [("p", 1)] }⟩

/-- Two calls that overlap: one agent of another partition is in a batch with two that share a quota,
and another one is in a call of its own. -/
def overlap : List Action :=
  [.begin [member "a" "p", member "b" "p", member "d" "q"] task prompts,
    .begin [member "e" "q"] task prompts, .run (.caller 0) default, .run (.caller 1) default,
    .run (.invocation 0 0) default, .run (.invocation 0 1) default, .run (.invocation 0 2) default,
    .run (.invocation 1 0) default, .run (.caller 1) default, .pass 60000,
    .run (.invocation 0 1) default, .run (.caller 0) default]

theorem calm_overlap : World.Calm "p" (ample 4) overlap where
  kept := by
    intro act hact k
    simp only [overlap, List.mem_cons, List.not_mem_nil, or_false] at hact
    rcases hact with rfl | rfl | rfl | rfl | rfl | rfl | rfl | rfl | rfl | rfl | rfl | rfl <;> simp
  last := by
    have hsingle : ∀ agents ∈ World.rosters overlap, ((ample 4).batches agents).dropLast = [] := by
      decide +kernel
    intro agents hagents batch hbatch
    rw [hsingle agents hagents] at hbatch
    cases hbatch
  room := .inr (by decide)

end Sample

namespace World

/-- The requests of some occurrences: the call, the agent and the time. -/
def requestsIn (seen : List Occurrence) : List (Nat × String × Nat) :=
  seen.filterMap fun
    | .sent call request time => some (call, request.agentId, time)
    | _ => none

/-- Four agents with four permits: with the quota one agent waits for a minute, and the two of another
partition are asked at once, as they can be without it. -/
theorem shows_unlimited_met : ∃ view,
    view.flatMap (fun e => requestsIn e.2.2) = [(0, "d", 0), (1, "e", 0)] ∧
      Shows anyLaw "p" (Sample.ample 4) 60000 view ∧
      Shows anyLaw "p" ((Sample.ample 4).unlimited "p") 60000 view := by
  have hview : ((idle (Sample.ample 4)).play Sample.overlap).map (fun e =>
      ((outsideView "p" (idle (Sample.ample 4)) e.1).flatMap (fun e => requestsIn e.2.2), e.2.now)) =
      some ([(0, "d", 0), (1, "e", 0)], 60000) := by decide +kernel
  obtain ⟨⟨trace, w⟩, hplay, he⟩ := Option.map_eq_some_iff.1 hview
  obtain ⟨hrequests, hnow⟩ := Prod.mk.inj he
  obtain ⟨hrun, hacts⟩ := run_play hplay
  have hshows : Shows anyLaw "p" (Sample.ample 4) 60000
      (outsideView "p" (idle (Sample.ample 4)) trace) :=
    ⟨trace, w, hrun, hacts ▸ Sample.calm_overlap, hnow, rfl⟩
  exact ⟨_, hrequests, hshows,
    (shows_unlimited (fun _ _ => ⟨default, trivial⟩) "p" (Sample.ample 4) 60000 _).1 hshows⟩

/-- The calls whose agents are to be asked two at a time: two that share a quota, one of them with an
agent of another partition, and an agent of another partition in a call of its own. -/
def crowded (x : Executor) : World :=
  (((idle x).beginCall Sample.pair Sample.task Sample.prompts).beginCall
    [Sample.member "c" "p", Sample.member "d" "q"] Sample.task Sample.prompts).beginCall
    [Sample.member "e" "q"] Sample.task Sample.prompts

/-- The requests that are sent when the backend responds at once. -/
def requestsOf (x : Executor) : List (Nat × String × Nat) :=
  requestsIn ((Runner.finishCalls .bare (fun _ _ => (default, ())) [] ⟨crowded x, (), []⟩).seen.reverse)

/-- **Without permits for all a quota shows outside of its partition**: those who wait for it hold the
permits, and then an agent of another partition in the batch of one of them waits for a minute, and so
does one in a call without any of them. -/
theorem quota_shows :
    requestsOf ((Sample.ample 2).unlimited "p") =
      [(0, "a", 0), (0, "b", 0), (1, "c", 0), (1, "d", 0), (2, "e", 0)] ∧
    requestsOf (Sample.ample 2) =
      [(0, "a", 0), (0, "b", 60000), (1, "d", 60000), (2, "e", 60000), (1, "c", 120000)] := by
  decide +kernel

end World

end AgentSwarm
