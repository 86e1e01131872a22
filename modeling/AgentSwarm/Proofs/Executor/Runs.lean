/-
**Runs of an executor.**

A run is a sequence of steps in any order, with what was seen of each of them, in which the backend
keeps a law.  A world is reachable when some run leads to it from an executor without calls.  What
a property has to survive to hold along runs are the five kinds of steps of `AgentSwarm.World.Step`.

Main definitions:

* `AgentSwarm.World.Step` — a step, with the turn of an actor taken apart;
* `AgentSwarm.Trace`, `AgentSwarm.World.Run` — steps one after another;
* `AgentSwarm.World.Reachable` — the worlds that an executor can come to.

Main results:

* `AgentSwarm.World.step_of_step?` — the steps are those of `AgentSwarm.World.step?`;
* `AgentSwarm.World.Run.preserves` — **what every step preserves holds at the end of a run**;
* `AgentSwarm.World.Run.split` — a run may be cut between any two steps;
* `AgentSwarm.World.run_play` — actions that are possible one after another make a run.
-/

import AgentSwarm.Proofs.Executor.Turn

set_option relaxedAutoImplicit false
set_option autoImplicit false

namespace AgentSwarm

/-- The steps of a run, with what was seen of each. -/
abbrev Trace := List (Action × List Occurrence)

/-- All that was seen in a run, in order. -/
def Trace.seen (h : Trace) : List Occurrence := h.flatMap Prod.snd

@[simp] theorem Trace.seen_nil : Trace.seen [] = [] := rfl

@[simp] theorem Trace.seen_append (h h' : Trace) : (h ++ h').seen = h.seen ++ h'.seen :=
  List.flatMap_append

@[simp] theorem Trace.seen_singleton (act : Action) (seen : List Occurrence) :
    Trace.seen [(act, seen)] = seen := by
  simp [Trace.seen]

namespace World

variable {A : BackendLaw} {w w₁ w₂ w' : World} {act : Action} {seen : List Occurrence}

/-! ### Steps -/

/-- In a step the backend keeps a law. -/
def Lawful (A : BackendLaw) (w : World) : Action → Prop
  | .run a response => ∀ request, w.request? a = some request → A a.call request response
  | _ => True

/-- A step, with the turn of an actor taken apart. -/
inductive Step (A : BackendLaw) (w : World) : Action → List Occurrence → World → Prop
  | begin (agents : List Agent) (task : Task) (prompts : PromptBuilder) :
      Step A w (.begin agents task prompts) [] (w.beginCall agents task prompts)
  | turn {a : Actor} {response : Response} {seen : List Occurrence} {w' : World} : a ∈ w.ready →
      Turn A a (w.rise a) seen w' → Step A w (.run a response) seen w'
  | cancel {c : TaskCall} : w.call? c.id = some c → Step A w (.cancel c.id) [] (w.cancelCall c)
  | abandon {c : TaskCall} : w.call? c.id = some c →
      Step A w (.abandon c.id) (w.abandonCall c).2 (w.abandonCall c).1
  | pass {time : Nat} : w.ready = [] → w.now ≤ time → (∀ alarm ∈ w.alarms, time ≤ alarm.1) →
      Step A w (.pass time) [] (w.passTo time)

/-- The steps are those of `AgentSwarm.World.step?`. -/
theorem step_of_step? (h : w.step? act = some (w', seen)) (hA : Lawful A w act) :
    Step A w act seen w' := by
  cases act with
  | begin agents task prompts =>
      simp only [step?, Option.some.injEq, Prod.mk.injEq] at h
      obtain ⟨rfl, rfl⟩ := h
      exact .begin agents task prompts
  | run a response =>
      obtain ⟨ha, hturn⟩ := turn_of_step? h hA
      exact .turn ha hturn
  | cancel id =>
      obtain ⟨c, hc, he⟩ := Option.map_eq_some_iff.1 h
      obtain ⟨rfl, rfl⟩ := Prod.mk.inj he
      obtain rfl := id_of_call? hc
      exact .cancel hc
  | abandon id =>
      obtain ⟨c, hc, he⟩ := Option.map_eq_some_iff.1 h
      obtain ⟨rfl, rfl⟩ : (w.abandonCall c).1 = w' ∧ (w.abandonCall c).2 = seen := by simp [he]
      obtain rfl := id_of_call? hc
      exact .abandon hc
  | pass time =>
      simp only [step?, Option.ite_none_right_eq_some, Option.some.injEq, Prod.mk.injEq,
        mayPassTo, Bool.and_eq_true, List.isEmpty_iff, decide_eq_true_eq, List.all_eq_true] at h
      obtain ⟨⟨⟨hready, hnow⟩, halarms⟩, rfl, rfl⟩ := h
      exact .pass hready hnow halarms

/-- No step changes the executor. -/
theorem Step.executor_eq (hs : Step A w act seen w') : w'.executor = w.executor := by
  cases hs with
  | begin agents task prompts => rfl
  | turn _ ht => exact ht.steady.executor
  | cancel hc => exact (steady_cancelCall w _).executor
  | abandon hc => exact (steady_abandonCall w _).executor
  | pass _ _ _ => rfl

/-! ### Runs -/

/-- Steps one after another under a law of the backend. -/
inductive Run (A : BackendLaw) (w : World) : Trace → World → Prop
  | refl : Run A w [] w
  | step {h : Trace} {w₁ w₂ : World} {act : Action} {seen : List Occurrence} : Run A w h w₁ →
      Lawful A w₁ act → w₁.step? act = some (w₂, seen) → Run A w (h ++ [(act, seen)]) w₂

/-- **What every step preserves holds at the end of a run.** -/
theorem Run.preserves {P : World → Prop} {h : Trace}
    (hstep : ∀ w act seen w', P w → Step A w act seen w' → P w') (hrun : Run A w h w₁)
    (hw : P w) : P w₁ := by
  induction hrun with
  | refl => exact hw
  | step _ hlaw hs ih => exact hstep _ _ _ _ ih (step_of_step? hs hlaw)

/-- A run may go on with another one. -/
theorem Run.trans {h h' : Trace} (hrun : Run A w h w₁) (hrun' : Run A w₁ h' w₂) :
    Run A w (h ++ h') w₂ := by
  induction hrun' with
  | refl => rwa [List.append_nil]
  | step _ hlaw hs ih =>
      rw [← List.append_assoc]
      exact .step ih hlaw hs

/-- A run may be cut between any two steps. -/
theorem Run.split {h h' : Trace} (hrun : Run A w (h ++ h') w₂) :
    ∃ w₁, Run A w h w₁ ∧ Run A w₁ h' w₂ := by
  generalize hall : h ++ h' = all at hrun
  induction hrun generalizing h' with
  | refl =>
      obtain ⟨rfl, rfl⟩ := List.append_eq_nil_iff.1 hall
      exact ⟨w, .refl, .refl⟩
  | @step _ v₁ v₂ act seen hrun hlaw hs ih =>
      rcases List.eq_nil_or_concat h' with rfl | ⟨before, last, rfl⟩
      · rw [List.append_nil] at hall
        exact ⟨v₂, hall ▸ .step hrun hlaw hs, .refl⟩
      · rw [List.concat_eq_append, ← List.append_assoc] at hall
        obtain ⟨hbefore, hlast⟩ := List.append_inj' hall rfl
        obtain ⟨w₁, hfirst, hrest⟩ := ih hbefore
        obtain rfl := List.singleton_inj.1 hlast
        rw [List.concat_eq_append]
        exact ⟨w₁, hfirst, .step hrest hlaw hs⟩

/-- A run under a law is one under a law that allows more. -/
theorem Run.weaken {B : BackendLaw} {h : Trace} (hAB : ∀ k q r, A k q r → B k q r)
    (hrun : Run A w h w₁) : Run B w h w₁ := by
  induction hrun with
  | refl => exact .refl
  | @step _ _ _ act _ _ hlaw hs ih =>
      refine .step ih ?_ hs
      cases act with
      | run a response =>
          intro request hr
          exact hAB _ _ _ (hlaw request hr)
      | begin | cancel | abandon | pass => trivial

/-- The law under which a backend may answer anything. -/
def anyLaw : BackendLaw := fun _ _ _ => True

/-- Every step is one in which the backend may answer anything. -/
theorem lawful_anyLaw (w : World) (act : Action) : Lawful anyLaw w act := by
  cases act with
  | run a response => exact fun _ _ => trivial
  | begin | cancel | abandon | pass => trivial

/-- **The worlds that an executor can come to**, whatever the backend answers. -/
def Reachable (x : Executor) (w : World) : Prop := ∃ h, Run anyLaw (idle x) h w

/-- The executor of a reachable world. -/
theorem Reachable.executor_eq {x : Executor} (h : Reachable x w) : w.executor = x := by
  obtain ⟨trace, hrun⟩ := h
  exact hrun.preserves (P := fun v => v.executor = x)
    (fun _ _ _ _ h hs => hs.executor_eq.trans h) rfl

/-- What a run leads to from a reachable world is reachable. -/
theorem Reachable.run {x : Executor} {h : Trace} (hw : Reachable x w) (hrun : Run A w h w₁) :
    Reachable x w₁ := by
  obtain ⟨h₀, hrun₀⟩ := hw
  exact ⟨h₀ ++ h, hrun₀.trans (hrun.weaken fun _ _ _ _ => trivial)⟩

/-- A call may begin in a reachable world. -/
theorem Reachable.begin {x : Executor} (hw : Reachable x w) (agents : List Agent) (task : Task)
    (prompts : PromptBuilder) : Reachable x (w.beginCall agents task prompts) := by
  obtain ⟨h, hrun⟩ := hw
  have hlaw : Lawful anyLaw w (.begin agents task prompts) := trivial
  exact ⟨_, hrun.step hlaw rfl⟩

/-! ### Schedules -/

/-- The steps when actors go on in a given order and the backend always responds the same. -/
def follow (response : Response) : World → List Actor → Trace × World
  | w, [] => ([], w)
  | w, a :: rest =>
    let next := w.runActor a response
    let later := follow response next.1 rest
    ((.run a response, next.2) :: later.1, later.2)

/-- Whether actors may go on in a given order. -/
def mayFollow (response : Response) : World → List Actor → Bool
  | _, [] => true
  | w, a :: rest => decide (a ∈ w.ready) && mayFollow response (w.runActor a response).1 rest

/-- **Actors that go on in an order in which they may make a run.** -/
theorem run_follow {response : Response} (hA : ∀ k request, A k request response)
    (actors : List Actor) (h : w.mayFollow response actors = true) :
    Run A w (w.follow response actors).1 (w.follow response actors).2 := by
  induction actors generalizing w with
  | nil => exact .refl
  | cons a rest ih =>
      simp only [mayFollow, Bool.and_eq_true, decide_eq_true_eq] at h
      have hstep : w.step? (.run a response) =
          some ((w.runActor a response).1, (w.runActor a response).2) := by simp [step?, h.1]
      have hfirst : Run A w [(.run a response, (w.runActor a response).2)]
          (w.runActor a response).1 := .step (h := []) .refl (fun request _ => hA a.call request) hstep
      exact hfirst.trans (ih h.2)

/-- In such a run only actors act. -/
theorem run_of_mem_follow {response : Response} {actors : List Actor} :
    ∀ act ∈ (w.follow response actors).1.map Prod.fst, ∃ a, act = .run a response := by
  induction actors generalizing w with
  | nil => simp [follow]
  | cons a rest ih =>
      intro act hmem
      rcases List.mem_cons.1 hmem with rfl | hmem
      · exact ⟨a, rfl⟩
      · exact ih act hmem

/-- The steps of given actions, if all of them are possible. -/
def play : World → List Action → Option (Trace × World)
  | w, [] => some ([], w)
  | w, act :: rest =>
    (w.step? act).bind fun next =>
      (play next.1 rest).map fun later => ((act, next.2) :: later.1, later.2)

/-- **Actions that are possible one after another make a run**, and are its actions. -/
theorem run_play {acts : List Action} {trace : Trace} (h : w.play acts = some (trace, w')) :
    Run anyLaw w trace w' ∧ trace.map Prod.fst = acts := by
  induction acts generalizing w trace with
  | nil =>
      obtain ⟨rfl, rfl⟩ := Prod.mk.inj (Option.some.inj h)
      exact ⟨.refl, rfl⟩
  | cons act rest ih =>
      obtain ⟨⟨v, seen⟩, hstep, hrest⟩ := Option.bind_eq_some_iff.1 h
      obtain ⟨⟨later, u⟩, hlater, he⟩ := Option.map_eq_some_iff.1 hrest
      obtain ⟨rfl, rfl⟩ := Prod.mk.inj he
      obtain ⟨hrun, hacts⟩ := ih hlater
      have hfirst : Run anyLaw w [(act, seen)] v :=
        .step (h := []) .refl (lawful_anyLaw w act) hstep
      exact ⟨hfirst.trans hrun, by rw [List.map_cons, hacts]⟩

end World

/-- Whether an occurrence is that the call of a number returns results of a kind. -/
def Occurrence.isReturn (k : Nat) (p : List (String × AgentResult Float) → Bool) :
    Occurrence → Bool
  | .returned j results _ => j == k && p results
  | _ => false

theorem exists_returned_with {k : Nat} {p : List (String × AgentResult Float) → Bool}
    {seen : List Occurrence} (h : seen.any (·.isReturn k p) = true) :
    ∃ results time, .returned k results time ∈ seen ∧ p results = true := by
  obtain ⟨o, ho, hret⟩ := List.any_eq_true.1 h
  cases o with
  | returned j results time =>
      obtain ⟨rfl, hp⟩ : j = k ∧ p results = true := by simpa [Occurrence.isReturn] using hret
      exact ⟨results, time, ho, hp⟩
  | dispatched | sent | ended | reported => cases hret

theorem exists_returned {k : Nat} {seen : List Occurrence}
    (h : seen.any (·.isReturn k fun _ => true) = true) :
    ∃ results time, .returned k results time ∈ seen := by
  obtain ⟨results, time, hret, -⟩ := exists_returned_with h
  exact ⟨results, time, hret⟩

/-! ### A small executor -/

namespace Sample

/-- A strategy that sends one request at a time. -/
def strategy : Strategy := ⟨"narrow", 1, .zero, false, "One request at a time"⟩

/-- An executor that sends one request at a time. -/
def executor : Executor := ⟨strategy, .standard⟩

/-- An agent that is active and one that is not. -/
def agents : List Agent :=
  [.create "a" "analyst" default "p" defaultProfile 1,
    { Agent.create "b" "analyst" default "p" defaultProfile 1 with status := .disabled }]

/-- A task without any content. -/
def task : Task := ⟨"t", "", .null, []⟩

/-- The same prompt for all. -/
def prompts : PromptBuilder := fun _ _ => some "go"

/-- The executor when it begins to ask the agents. -/
def begun : World := (World.idle executor).beginCall agents task prompts

/-- The actors in an order in which the call returns, when the backend responds at once. -/
def course : List Actor := [.caller 0, .invocation 0 0, .caller 0, .caller 0]

theorem reachable_idle (x : Executor) : World.Reachable x (World.idle x) := ⟨[], .refl⟩

theorem reachable_begun : World.Reachable executor begun :=
  (reachable_idle executor).begin agents task prompts

end Sample

end AgentSwarm
