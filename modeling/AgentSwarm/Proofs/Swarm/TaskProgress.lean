/-
**What is told of one task among others.**

Calls of a swarm overlap, and all of them tell the same observers.  As long as no two of them work
on tasks of one id, what is told of a task is what is seen of its own call, whatever the others do,
and when the call has returned there is the report of the task.

Main definitions:

* `AgentSwarm.eventsOf` — the events of a task among those of a swarm;
* `AgentSwarm.Swarm.Follows`, `AgentSwarm.Swarm.Quiet` — a task is under way, and it is over;
* `AgentSwarm.Swarm.ToldAsSeen` — what is told of a task is what is seen of its call;
* `AgentSwarm.Swarm.TaskProgress` — what has become of a task after what was seen.

Main results:

* `AgentSwarm.Swarm.Follows.foldl_returned` — a call that returns ends its task;
* `AgentSwarm.Swarm.Run.taskProgress` — **what is told of a task is what is seen of its call**.
-/

import AgentSwarm.Proofs.Swarm.BlockEvents

set_option relaxedAutoImplicit false
set_option autoImplicit false

namespace AgentSwarm

/-! ### The events of a task -/

/-- What happened in the task that an event belongs to. -/
def Event.taskEvent? (e : Event) : Option TaskEvent :=
  match e.kind with
  | .agentRegistered _ _ _ => none
  | .task _ event => some event

/-- What happened in the task of an id. -/
def eventsOf (id : String) (told : List Event) : List TaskEvent :=
  (told.filter fun e => e.taskId? == some id).filterMap (·.taskEvent?)

@[simp] theorem eventsOf_nil (id : String) : eventsOf id [] = [] := rfl

@[simp] theorem eventsOf_append (id : String) (told later : List Event) :
    eventsOf id (told ++ later) = eventsOf id told ++ eventsOf id later := by
  simp [eventsOf]

namespace Swarm

variable {s s' : Swarm} {key : VoteKey Float} {t : OpenTask} {o : Occurrence} {id : String}
  {seen : List Occurrence}

/-- Something that happens in a task is told of this task only. -/
theorem eventsOf_task (s : Swarm) (id id' : String) (e : TaskEvent) :
    eventsOf id [s.event (.task id' e)] = if id' = id then [e] else [] := by
  by_cases h : id' = id <;> simp [eventsOf, event, Event.taskId?, Event.taskEvent?, h]

/-- What is told of a task is told of an occurrence of its call. -/
theorem eventsOf_hear (s : Swarm) (o : Occurrence) (id : String) :
    eventsOf id (s.hear o) =
      match s.openTask? o.call with
      | some u => if u.taskId = id then (o.taskEvent? (s.finalEvent u)).toList else []
      | none => [] := by
  unfold hear
  cases s.openTask? o.call with
  | none => rfl
  | some u =>
      dsimp only
      cases o.taskEvent? (s.finalEvent u) with
      | none => simp
      | some e => exact eventsOf_task s id u.taskId e

/-- What is told of occurrences is told of some of them and then of the others. -/
theorem hearAll_append (s : Swarm) (seen later : List Occurrence) :
    s.hearAll (seen ++ later) = s.hearAll seen ++ (seen.foldl absorb s).hearAll later := by
  induction seen generalizing s with
  | nil => rfl
  | cons o rest ih => simp only [List.cons_append, hearAll, ih, List.foldl_cons, List.append_assoc]

/-! ### Tasks that are over -/

/-- No task of the id and the call of another one is open. -/
def Quiet (s : Swarm) (t : OpenTask) : Prop :=
  ∀ u ∈ s.openTasks, u.taskId ≠ t.taskId ∧ u.call ≠ t.call

/-- The report of a task that is over is kept when others come to their end. -/
theorem Quiet.lookup_reports (h : s.Quiet t) (o : Occurrence) :
    (s.absorb o).reports.lookup t.call = s.reports.lookup t.call := by
  rcases s.absorb_cases o with ⟨bus, he⟩ | ⟨u, results, time, -, hu, he⟩
  · rw [he]
  · have hne := (h u (List.mem_of_find?_eq_some hu)).2
    have hlookup : (t.call == u.call) = false := by simpa using hne.symm
    simp only [he, conclude, List.lookup_cons, hlookup]
    rfl

/-- Of a task that is over nothing is told, and its report is kept. -/
theorem Quiet.foldl (h : s.Quiet t) (seen : List Occurrence) :
    (seen.foldl absorb s).Quiet t ∧ eventsOf t.taskId (s.hearAll seen) = [] ∧
      (seen.foldl absorb s).reports.lookup t.call = s.reports.lookup t.call := by
  induction seen generalizing s with
  | nil => exact ⟨h, rfl, rfl⟩
  | cons o rest ih =>
      have hrest : (s.absorb o).Quiet t := fun u hu => h u ((s.absorb_keeps o).2 u hu)
      obtain ⟨hquiet, hnone, hreport⟩ := ih hrest
      refine ⟨hquiet, ?_, hreport.trans (h.lookup_reports o)⟩
      rw [hearAll, eventsOf_append, hnone, eventsOf_hear, List.append_nil]
      cases hfound : s.openTask? o.call with
      | none => rfl
      | some u => exact if_neg (h u (List.mem_of_find?_eq_some hfound)).1

/-! ### Tasks that are under way -/

/-- A task is under way, and no other of its id. -/
structure Follows (s : Swarm) (key : VoteKey Float) (t : OpenTask) : Prop where
  voteKey : s.voteKey = key
  opened : s.openTask? t.call = some t
  alone : ∀ u ∈ s.openTasks, u.taskId = t.taskId → u.call = t.call

/-- The event of the results of a task. -/
def finalOf (key : VoteKey Float) (t : OpenTask) (results : List (String × AgentResult Float)) :
    TaskEvent :=
  consensusEvent t.algorithm (aggregate key t.algorithm results)

/-- What is told of a task is what is seen of its call. -/
def ToldAsSeen (key : VoteKey Float) (t : OpenTask) (told : List Event) (seen : List Occurrence) :
    Prop :=
  eventsOf t.taskId told = (seenOf t.call seen).filterMap (·.taskEvent? (finalOf key t))

theorem ToldAsSeen.append {told later : List Event} {more : List Occurrence}
    (h : ToldAsSeen key t told seen) (h' : ToldAsSeen key t later more) :
    ToldAsSeen key t (told ++ later) (seen ++ more) := by
  rw [ToldAsSeen, eventsOf_append, seenOf_append, List.filterMap_append, h, h']

namespace Follows

/-- What is told of an occurrence is what is seen of it. -/
theorem toldAsSeen_hear (h : s.Follows key t) (o : Occurrence) :
    ToldAsSeen key t (s.hear o) [o] := by
  rw [ToldAsSeen, eventsOf_hear]
  by_cases hcall : o.call = t.call
  · have hfinal : s.finalEvent t = finalOf key t := by
      funext results
      rw [finalEvent, h.voteKey, finalOf]
    rw [hcall, h.opened, seenOf_eq_self (by simpa using hcall), List.filterMap_cons]
    dsimp only
    rw [if_pos rfl, hfinal]
    cases o.taskEvent? (finalOf key t) <;> rfl
  · rw [seenOf_eq_nil (j := o.call) (by simp) fun he => hcall he.symm]
    cases hu : s.openTask? o.call with
    | none => rfl
    | some u =>
        have hne : u.taskId ≠ t.taskId := fun hid =>
          hcall ((by simpa using List.find?_some hu : u.call = o.call).symm.trans
            (h.alone u (List.mem_of_find?_eq_some hu) hid))
        exact if_neg hne

/-- A task stays under way when others come to their end. -/
theorem close {call : Nat} (h : s.Follows key t) (hkey : s'.voteKey = s.voteKey)
    (hne : call ≠ t.call) (hopen : s'.openTasks = s.openTasks.filter (·.call != call)) :
    s'.Follows key t := by
  refine ⟨hkey.trans h.voteKey, ?_, fun u hu hid => ?_⟩
  · rw [openTask?, hopen, List.find?_filter, ← h.opened, openTask?]
    congr 1
    funext u
    by_cases hu : u.call = t.call <;> simp [hu, hne.symm]
  · rw [hopen] at hu
    exact h.alone u (List.mem_of_mem_filter hu) hid

/-- A task stays under way as long as its call does not return. -/
theorem step (h : s.Follows key t)
    (hret : ∀ results time, o ≠ .returned t.call results time) : (s.absorb o).Follows key t := by
  rcases s.absorb_cases o with ⟨bus, he⟩ | ⟨u, results, time, ho, -, he⟩
  · rw [he]
    exact ⟨h.voteKey, h.opened, h.alone⟩
  · rw [he]
    exact h.close rfl (fun hcall => hret results time (hcall ▸ ho)) rfl

/-- While a call does not return, its task stays under way and is told what is seen of it. -/
theorem foldl (h : s.Follows key t) (hret : ∀ results time, .returned t.call results time ∉ seen) :
    (seen.foldl absorb s).Follows key t ∧ ToldAsSeen key t (s.hearAll seen) seen := by
  induction seen generalizing s with
  | nil => exact ⟨h, rfl⟩
  | cons o rest ih =>
      have hfirst : (s.absorb o).Follows key t :=
        h.step fun results time he => hret results time (he ▸ List.mem_cons_self ..)
      obtain ⟨hfollows, htoldAsSeen⟩ :=
        ih hfirst fun results time hmem => hret results time (List.mem_cons_of_mem _ hmem)
      exact ⟨hfollows, (h.toldAsSeen_hear o).append htoldAsSeen⟩

/-- A task stays under way as long as its call is not abandoned. -/
theorem resume {a : Action} (h : s.Follows key t) (ha : a ≠ .abandon t.call) (w : World) :
    (s.resume a w).Follows key t := by
  cases a with
  | abandon call => exact h.close rfl (fun he => ha (he ▸ rfl)) rfl
  | begin | run | cancel | pass => exact ⟨h.voteKey, h.opened, h.alone⟩

/-- A task stays under way when another one begins. -/
theorem begin (h : s.Follows key t) (task : Task) (algorithm : Option Algorithm)
    (hid : task.id ≠ t.taskId) : (s.beginTask task algorithm).1.Follows key t := by
  refine ⟨h.voteKey, ?_, fun u hu he => ?_⟩
  · change List.find? _ (s.openTasks ++ _) = _
    rw [List.find?_append, show s.openTasks.find? _ = some t from h.opened]
    rfl
  · rcases List.mem_append.1 hu with hu | hu
    · exact h.alone u hu he
    · obtain rfl := List.mem_singleton.1 hu
      exact absurd he hid

/-- A task that leaves is over. -/
theorem leave (h : s.Follows key t)
    (hopen : s'.openTasks = s.openTasks.filter (·.call != t.call)) : s'.Quiet t := by
  intro u hu
  rw [hopen] at hu
  obtain ⟨hu, hne⟩ := List.mem_filter.1 hu
  have hcall : u.call ≠ t.call := by simpa using hne
  exact ⟨fun hid => hcall (h.alone u hu hid), hcall⟩

end Follows

/-- The report of a task with the results of its call. -/
structure Reported (key : VoteKey Float) (t : OpenTask)
    (results : List (String × AgentResult Float)) (report : TaskReport) : Prop where
  taskId : report.taskId = t.taskId
  algorithm : report.algorithm = t.algorithm
  consensus : report.consensus = aggregate key t.algorithm results
  results : report.results = results

theorem reported_conclude (s : Swarm) (t : OpenTask)
    (results : List (String × AgentResult Float)) :
    ∃ report, (s.conclude t results).reports.lookup t.call = some report ∧
      Reported s.voteKey t results report :=
  ⟨_, List.lookup_cons_self, rfl, rfl, rfl, rfl⟩

/-- A call that returns ends its task: the consensus is told, and there is a report. -/
theorem Follows.foldl_returned {later : List Occurrence}
    {results : List (String × AgentResult Float)} {time : Nat} (h : s.Follows key t)
    (hseen : seenOf t.call seen = later ++ [.returned t.call results time])
    (hlater : ∀ results time, .returned t.call results time ∉ later) :
    (seen.foldl absorb s).Quiet t ∧ ToldAsSeen key t (s.hearAll seen) seen ∧
      ∃ report, (seen.foldl absorb s).reports.lookup t.call = some report ∧
        Reported key t results report := by
  have hmem : .returned t.call results time ∈ seenOf t.call seen := by simp [hseen]
  obtain ⟨before, after, rfl⟩ := List.append_of_mem (mem_seenOf.1 hmem).1
  have hsplit : seenOf t.call (before ++ .returned t.call results time :: after) =
      seenOf t.call before ++ .returned t.call results time :: seenOf t.call after := by
    simp [seenOf, Occurrence.call]
  -- the return is the last that is seen of the call
  have hafter : seenOf t.call after = [] ∧ seenOf t.call before = later := by
    rw [hsplit] at hseen
    rcases List.eq_nil_or_concat (seenOf t.call after) with hnil | ⟨front, last, hconcat⟩
    · rw [hnil] at hseen
      exact ⟨hnil, (List.append_inj' hseen rfl).1⟩
    · rw [hconcat, List.concat_eq_append, ← List.cons_append, ← List.append_assoc] at hseen
      have hfront := (List.append_inj' hseen rfl).1
      exact absurd (hfront ▸ by simp) (hlater results time)
  have hbefore : ∀ results time, .returned t.call results time ∉ before := by
    intro results time hmem
    exact hlater results time (hafter.2 ▸ mem_seenOf.2 ⟨hmem, rfl⟩)
  obtain ⟨hfollows, htoldAsSeen⟩ := h.foldl hbefore
  have hconclude : (before.foldl absorb s).absorb (.returned t.call results time) =
      (before.foldl absorb s).conclude t results := by
    simp only [absorb, hfollows.opened]
  have hleft : ((before.foldl absorb s).conclude t results).Quiet t := hfollows.leave rfl
  obtain ⟨hquiet, hnone, hreport⟩ := hleft.foldl after
  refine ⟨?_, ?_, ?_⟩
  · rw [List.foldl_append, List.foldl_cons, hconclude]
    exact hquiet
  · have hend :
        ToldAsSeen key t (((before.foldl absorb s).conclude t results).hearAll after) after := by
      rw [ToldAsSeen, hnone, hafter.1]
      rfl
    rw [hearAll_append, hearAll, hconclude]
    exact htoldAsSeen.append ((hfollows.toldAsSeen_hear _).append hend)
  · rw [List.foldl_append, List.foldl_cons, hconclude, hreport]
    exact hfollows.voteKey ▸ reported_conclude _ t results

/-! ### The progress of a task -/

/-- What has become of a task after what was seen: it is under way as long as its call has not
returned, and when the call is over there is nothing to come, and the report if it has returned. -/
inductive TaskProgress (key : VoteKey Float) (t : OpenTask) (s : Swarm) (seen : List Occurrence) :
    Prop
  | under : s.Follows key t → (∀ results time, .returned t.call results time ∉ seen) →
      TaskProgress key t s seen
  | done : s.Quiet t → s.world.call? t.call = none →
      (∀ results time, .returned t.call results time ∈ seen → ∃ report,
        s.reports.lookup t.call = some report ∧ Reported key t results report) →
      TaskProgress key t s seen

variable {act : Act} {acts : List Act} {trace : Trace} {told : List Event} {log : List Occurrence}

/-- The roster does not matter to a task that has begun. -/
theorem TaskProgress.congr (h : TaskProgress key t s log) (hkey : s'.voteKey = s.voteKey)
    (hopen : s'.openTasks = s.openTasks) (hworld : s'.world = s.world)
    (hreports : s'.reports = s.reports) : TaskProgress key t s' log := by
  cases h with
  | under hfollows hret =>
      refine .under ⟨hkey.trans hfollows.voteKey, ?_, hopen ▸ hfollows.alone⟩ hret
      rw [openTask?, hopen]
      exact hfollows.opened
  | done hquiet hgone hreport =>
      exact .done (fun u hu => hquiet u (hopen ▸ hu)) (hworld ▸ hgone) (hreports ▸ hreport)

/-- A task that is over when the executor goes on. -/
theorem TaskProgress.go_done {a : Action} (hquiet : s.Quiet t) (hcall : s.world.call? t.call = none)
    (hreport : ∀ results time, .returned t.call results time ∈ log → ∃ report,
      s.reports.lookup t.call = some report ∧ Reported key t results report)
    (hw : s.world.Sound) (hlt : t.call < s.world.nextCall) (hstep : s.step? a = some (s', seen)) :
    TaskProgress key t s' (log ++ seen) ∧
      ToldAsSeen key t ((s.resume a s'.world).hearAll seen) seen := by
  obtain ⟨hworld, he⟩ := eq_of_step? hstep
  have hrun : World.Run World.anyLaw s.world [(a, seen)] s'.world :=
    .step (h := []) .refl (World.lawful_anyLaw _ a) hworld
  obtain ⟨hnone, hseen⟩ := hrun.over hw hlt hcall
  rw [Trace.seen_singleton] at hseen
  have hresume : (s.resume a s'.world).Quiet t := fun u hu => hquiet u (s.mem_of_mem_openAfter hu)
  obtain ⟨hquiet', hevents, hlookup⟩ := hresume.foldl seen
  rw [← he] at hquiet' hlookup
  refine ⟨.done hquiet' hnone fun results time hmem => ?_, by rw [ToldAsSeen, hevents, hseen]; rfl⟩
  rcases List.mem_append.1 hmem with hmem | hmem
  · rw [hlookup]
    exact hreport results time hmem
  · have hmem' : .returned t.call results time ∈ seenOf t.call seen := mem_seenOf.2 ⟨hmem, rfl⟩
    rw [hseen] at hmem'
    cases hmem'

/-- A task that is under way when its call is abandoned. -/
theorem TaskProgress.go_abandoned (hfollows : s.Follows key t)
    (hret : ∀ results time, .returned t.call results time ∉ log)
    (hstep : s.step? (.abandon t.call) = some (s', seen)) :
    TaskProgress key t s' (log ++ seen) ∧
      ToldAsSeen key t ((s.resume (.abandon t.call) s'.world).hearAll seen) seen := by
  obtain ⟨hworld, he⟩ := eq_of_step? hstep
  obtain ⟨hgone, hended⟩ := (World.step_of_step? hworld (World.lawful_anyLaw _ _)).abandoned
  have hresume : (s.resume (.abandon t.call) s'.world).Quiet t := hfollows.leave rfl
  obtain ⟨hquiet, hevents, _⟩ := hresume.foldl seen
  rw [← he] at hquiet
  refine ⟨.done hquiet hgone fun results time hmem => ?_, hevents.trans (Eq.symm ?_)⟩
  · rcases List.mem_append.1 hmem with hmem | hmem
    · exact absurd hmem (hret results time)
    · obtain ⟨id, hid⟩ := hended _ hmem
      cases hid
  · rw [List.filterMap_eq_nil_iff]
    intro o ho
    obtain ⟨id, rfl⟩ := hended o (mem_seenOf.1 ho).1
    rfl

/-- A task that is under way when the executor goes on otherwise. -/
theorem TaskProgress.go_under {a : Action} (hfollows : s.Follows key t)
    (hret : ∀ results time, .returned t.call results time ∉ log) (ha : a ≠ .abandon t.call)
    (hw : s.world.Sound) (hlt : t.call < s.world.nextCall) (hstep : s.step? a = some (s', seen)) :
    TaskProgress key t s' (log ++ seen) ∧
      ToldAsSeen key t ((s.resume a s'.world).hearAll seen) seen := by
  obtain ⟨hworld, he⟩ := eq_of_step? hstep
  have hresume : (s.resume a s'.world).Follows key t := hfollows.resume ha _
  -- as long as the call does not return, the task stays under way
  have hstay (hnone : ∀ results time, .returned t.call results time ∉ seenOf t.call seen) :
      TaskProgress key t s' (log ++ seen) ∧
        ToldAsSeen key t ((s.resume a s'.world).hearAll seen) seen := by
    have hnone' : ∀ results time, .returned t.call results time ∉ seen :=
      fun results time hmem => hnone results time (mem_seenOf.2 ⟨hmem, rfl⟩)
    obtain ⟨hfollows', htoldAsSeen⟩ := hresume.foldl hnone'
    rw [← he] at hfollows'
    refine ⟨.under hfollows' fun results time hmem => ?_, htoldAsSeen⟩
    exact (List.mem_append.1 hmem).elim (hret results time) (hnone' results time)
  rcases (World.step_of_step? hworld (World.lawful_anyLaw _ a)).fate hw hlt with
    ⟨_, hseen, _⟩ | ⟨ha', _⟩ | hfate
  · exact hstay (by simp [hseen])
  · exact absurd ha' ha
  · rcases hfate.returns with hnone | ⟨hgone, later, k, results, time, hseen, hlater⟩
    · exact hstay (hnone t.call)
    · have hmem : .returned k results time ∈ seenOf t.call seen := by simp [hseen]
      obtain rfl : k = t.call := (mem_seenOf.1 hmem).2
      obtain ⟨hquiet, htoldAsSeen, hreport⟩ := hresume.foldl_returned hseen (hlater t.call)
      rw [← he] at hquiet hreport
      refine ⟨.done hquiet hgone fun results' time' hmem => ?_, htoldAsSeen⟩
      have hmem' : .returned t.call results' time' ∈ later ++ [.returned t.call results time] :=
        hseen ▸ mem_seenOf.2 ⟨(List.mem_append.1 hmem).resolve_left (hret results' time'), rfl⟩
      have hlast := (List.mem_append.1 hmem').resolve_left (hlater t.call results' time')
      obtain ⟨_, rfl, rfl⟩ := Occurrence.returned.inj (List.mem_singleton.1 hlast)
      exact hreport

/-- A task among others of which one more begins. -/
theorem TaskProgress.begin (h : TaskProgress key t s log) (hlt : t.call < s.world.nextCall)
    (task : Task) (algorithm : Option Algorithm) (hid : task.id ≠ t.taskId) :
    TaskProgress key t (s.beginTask task algorithm).1 log := by
  cases h with
  | under hfollows hret => exact .under (hfollows.begin task algorithm hid) hret
  | done hquiet hgone hreport =>
      refine .done ?_ ?_ hreport
      · intro u hu
        rcases List.mem_append.1 hu with hu | hu
        · exact hquiet u hu
        · obtain rfl := List.mem_singleton.1 hu
          exact ⟨hid, hlt.ne'⟩
      · exact (World.call?_beginCall _ _ _ _ hlt.ne).trans hgone

/-- What is told of a task in a step is what is seen of its call. -/
theorem Step.taskProgress (h : Step s act trace told s') (hc : TaskProgress key t s log)
    (hw : s.world.Sound) (hlt : t.call < s.world.nextCall)
    (hothers : ∀ task algorithm, act = .begin task algorithm → task.id ≠ t.taskId) :
    TaskProgress key t s' (log ++ trace.seen) ∧ ToldAsSeen key t told trace.seen := by
  cases h with
  | begin task algorithm =>
      have hid : task.id ≠ t.taskId := hothers task algorithm rfl
      rw [Trace.seen_singleton, List.append_nil]
      exact ⟨hc.begin hlt task algorithm hid, (eventsOf_task ..).trans (if_neg hid)⟩
  | @go a _ _ _ hstep =>
      rw [Trace.seen_singleton]
      cases hc with
      | under hfollows hret =>
          by_cases ha : a = .abandon t.call
          · subst ha
            exact TaskProgress.go_abandoned hfollows hret hstep
          · exact TaskProgress.go_under hfollows hret ha hw hlt hstep
      | done hquiet hgone hreport => exact TaskProgress.go_done hquiet hgone hreport hw hlt hstep
  | add _ hadd =>
      obtain ⟨roster, _, rfl⟩ := register_spec hadd
      rw [Trace.seen_nil, List.append_nil]
      exact ⟨hc.congr rfl rfl rfl rfl, rfl⟩
  | setStatus _ hset =>
      obtain ⟨roster, _, rfl⟩ := setStatus_spec hset
      rw [Trace.seen_nil, List.append_nil]
      exact ⟨hc.congr rfl rfl rfl rfl, rfl⟩

/-- **What is told of a task is what is seen of its call**, as long as no other of its id begins. -/
theorem Run.taskProgress (h : Run s acts trace told s') (hc : TaskProgress key t s [])
    (hw : s.world.Sound) (hlt : t.call < s.world.nextCall)
    (hothers : ∀ task algorithm, .begin task algorithm ∈ acts → task.id ≠ t.taskId) :
    TaskProgress key t s' trace.seen ∧ ToldAsSeen key t told trace.seen := by
  induction h with
  | refl => exact ⟨hc, rfl⟩
  | @step acts act trace more told later s₁ s₂ hrun hstep ih =>
      obtain ⟨hc₁, htoldAsSeen⟩ := ih fun task algorithm hmem =>
        hothers task algorithm (List.mem_append_left _ hmem)
      obtain ⟨hw₁, _, hle⟩ := hrun.world.sound hw
      obtain ⟨hc₂, hlater⟩ := hstep.taskProgress hc₁ hw₁ (hlt.trans_le hle) fun task algorithm he =>
        hothers task algorithm (he ▸ by simp)
      rw [Trace.seen_append]
      exact ⟨hc₂, htoldAsSeen.append hlater⟩

end Swarm

end AgentSwarm
