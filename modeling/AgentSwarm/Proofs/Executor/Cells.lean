/-
**Requests and quotas.**

Every request for an agent of a partition with a quota is admitted by this quota when it is sent,
and the quota is used for nothing else.  So the due time of a partition is just what the requests of
the run have made of it, whatever the calls, and whether they return, are cancelled or are
abandoned; and the requests of a partition are as rare as those of anybody else who asks the quota.

Main definitions:

* `AgentSwarm.World.partitionOf?` — the partition of the agent that an actor asks;
* `AgentSwarm.World.startsOf`, `AgentSwarm.World.startsIn` — the times at which requests for agents
  of a partition are sent in a step, and in a run.

Main results:

* `AgentSwarm.World.Acts.admits`, `AgentSwarm.World.Step.admits` — **what a step does to the quota
  of a partition**;
* `AgentSwarm.World.Run.admits` — the requests of a run are admitted one after another;
* `AgentSwarm.Quota.rate_bound` — **how many requests a quota admits in a window**.
-/

import AgentSwarm.Proofs.Executor.Cancel
import AgentSwarm.Proofs.Quota.Rate

set_option relaxedAutoImplicit false
set_option autoImplicit false

namespace AgentSwarm

namespace World

variable {A : BackendLaw} {a : Actor} {w w' : World} {c : TaskCall} {i : Invocation}
  {seen : List Occurrence} {act : Action} {partition : String} {q : Quota}

/-! ### Requests of a partition -/

/-- The partition of the agent that an actor asks. -/
def partitionOf? (w : World) (a : Actor) : Option String := (w.unit? a).map (·.agent.partition)

/-- The times at which requests are sent. -/
def sendTimes (seen : List Occurrence) : List Nat :=
  seen.filterMap fun
    | .sent _ _ time => some time
    | _ => none

@[simp] theorem sendTimes_nil : sendTimes [] = [] := rfl

@[simp] theorem sendTimes_append (seen later : List Occurrence) :
    sendTimes (seen ++ later) = sendTimes seen ++ sendTimes later :=
  List.filterMap_append

/-- Leaving the backend is no request. -/
@[simp] theorem sendTimes_endedIf (k : Nat) (i : Invocation) : sendTimes (endedIf k i) = [] := by
  unfold endedIf
  split <;> rfl

/-- A report is no request. -/
@[simp] theorem sendTimes_reports (k : Nat) (results : List (AgentResult Float)) :
    sendTimes (results.map (.reported k)) = [] := by
  induction results with
  | nil => rfl
  | cons r rest ih => exact ih

/-- The times at which requests for agents of a partition are sent by an actor. -/
def startsBy (w : World) (partition : String) (a : Actor) (seen : List Occurrence) : List Nat :=
  if w.partitionOf? a = some partition then sendTimes seen else []

/-- The times at which requests for agents of a partition are sent in a step. -/
def startsOf (w : World) (partition : String) (act : Action) (seen : List Occurrence) : List Nat :=
  match act with
  | .run a _ => w.startsBy partition a seen
  | _ => []

/-- The world after a step; an impossible one changes nothing. -/
def after (w : World) (act : Action) : World := ((w.step? act).map Prod.fst).getD w

/-- **The times at which requests for agents of a partition are sent in a run.** -/
def startsIn (partition : String) : World → Trace → List Nat
  | _, [] => []
  | w, (act, seen) :: rest => w.startsOf partition act seen ++ startsIn partition (w.after act) rest

/-! ### What a turn does to a quota -/

/-- The due time of a partition after one was written. -/
theorem lookup_putDue (w : World) (p partition : String) (due : Nat) :
    (w.putDue p (some due)).dues.lookup partition =
      if partition = p then some due else w.dues.lookup partition := by
  by_cases hp : partition = p
  · simp [putDue, hp]
  · have hb : (partition == p) = false := by simpa using hp
    simp [putDue, List.lookup_cons, lookup_filter_ne, hb, hp]

/-- A partition with a quota is written only by its own requests. -/
theorem lookup_putDue_of_checkQuota {due : Option Nat} {p : String}
    (hq : w.executor.quotaOf partition = some q) (hcheck : w.checkQuota p = .ok due) :
    (p = partition ∧ ∃ next, q.check (w.dues.lookup partition) (w.now * 1000000) = .ok next ∧
      (w.putDue p due).dues.lookup partition = some next) ∨
    p ≠ partition ∧ (w.putDue p due).dues.lookup partition = w.dues.lookup partition := by
  by_cases hp : p = partition
  · subst hp
    refine .inl ⟨rfl, ?_⟩
    simp only [checkQuota, hq] at hcheck
    cases hnext : q.check (w.dues.lookup p) (w.now * 1000000) with
    | error retry =>
        rw [hnext] at hcheck
        cases hcheck
    | ok next =>
        rw [hnext] at hcheck
        obtain rfl := Except.ok.inj hcheck
        exact ⟨next, rfl, by rw [lookup_putDue, if_pos rfl]⟩
  · refine .inr ⟨hp, ?_⟩
    cases due with
    | none => rfl
    | some due => rw [lookup_putDue, if_neg fun h => hp h.symm]

/-- An actor asks the same agent all its turn. -/
theorem Move.partitionOf?_eq (hm : Move A a w seen w') : w'.partitionOf? a = w.partitionOf? a := by
  have hadjust : ∀ {v : World} {c : TaskCall} {i : Invocation} {f : Invocation → Invocation},
      v.Has c i → (∀ j, (f j).place = j.place) → (f i).agent = i.agent →
      (v.putCall (c.adjust i.place f)).partitionOf? (actorOf c i) =
        v.partitionOf? (actorOf c i) := by
    intro v c i f hi hplace hagent
    simp only [partitionOf?, hi.unit?_adjust hplace, if_true, hi.unit?, Option.map_some, hagent]
  cases hm with
  | start hi _ _ => exact hadjust hi (fun _ => rfl) rfl
  | @take _ c i hi _ _ _ =>
      exact hadjust (v := w.putPool _ _) (f := fun i => { i with stage := .admitted })
        ⟨hi.call, hi.unit⟩ (fun _ => rfl) rfl
  | @send _ c i due response hi _ _ _ _ =>
      have hset := hadjust (f := fun j => { j with stage := (.calling
        (w.now + (w.executor.curtail response).1) (w.executor.curtail response).2) }) hi
        (fun _ => rfl) rfl
      cases due <;> exact hset
  | report _ _ => rfl

/-- What a move does to the quota of a partition. -/
theorem Move.admits (hm : Move A a w seen w') (hq : w.executor.quotaOf partition = some q) :
    q.Admits (w.dues.lookup partition) ((w.startsBy partition a seen).map (· * 1000000))
      (w'.dues.lookup partition) := by
  cases hm with
  | start hi _ _ | take hi _ _ _ =>
      rw [startsBy, sendTimes_nil, ite_self]
      exact .refl
  | report _ _ =>
      rw [startsBy, sendTimes_reports, ite_self]
      exact .refl
  | @send _ c i due response hi _ _ hcheck _ =>
      simp only [startsBy, partitionOf?, hi.unit?, Option.map_some, Option.some.injEq]
      rcases lookup_putDue_of_checkQuota hq hcheck with ⟨hp, next, hnext, hdue⟩ | ⟨hp, hdue⟩
      · rw [if_pos hp]
        change q.Admits _ [w.now * 1000000] ((w.putDue i.agent.partition due).dues.lookup partition)
        rw [hdue]
        exact .single hnext
      · rw [if_neg hp]
        change q.Admits _ [] ((w.putDue i.agent.partition due).dues.lookup partition)
        rw [hdue]
        exact .refl

/-- The last move of a turn sends nothing. -/
theorem LastMove.sendTimes_eq_nil (hm : LastMove a w seen w') : sendTimes seen = [] := by
  cases hm with
  | enqueue | throttle | await | pause | dispatch | leave => rfl
  | @finish _ c i _ _ _ => exact sendTimes_endedIf c.id i

/-- The last move of a turn leaves quotas alone. -/
theorem LastMove.dues_eq (hm : LastMove a w seen w') (hs : w.Sound) : w'.dues = w.dues := by
  cases hm with
  | enqueue | throttle | await | pause | dispatch | leave => rfl
  | @finish _ c i ending hi _ => exact hs.dues_finish hi ending

/-- **What an actor does to the quota of a partition**: each request of the partition is admitted,
and nothing else is done to it. -/
theorem Acts.admits (hacts : Acts A a w seen w') (hs : w.Sound)
    (hq : w.executor.quotaOf partition = some q) :
    q.Admits (w.dues.lookup partition) ((w.startsBy partition a seen).map (· * 1000000))
      (w'.dues.lookup partition) := by
  induction hacts with
  | last hm =>
      rw [startsBy, hm.sendTimes_eq_nil, ite_self, hm.dues_eq hs]
      exact .refl
  | @move v v₁ v' seen later hm _ ih =>
      have hrest := ih (hm.sound hs) (hm.steady.executor ▸ hq)
      have hsplit : v.startsBy partition a (seen ++ later) =
          v.startsBy partition a seen ++ v₁.startsBy partition a later := by
        simp only [startsBy, hm.partitionOf?_eq, sendTimes_append]
        split <;> simp
      rw [hsplit, List.map_append]
      exact (hm.admits hq).trans hrest

/-! ### What a step does to a quota -/

/-- Abandoning a call leaves quotas alone. -/
theorem Sound.dues_abandonCall (hs : w.Sound) (hc : w.call? c.id = some c) :
    (w.abandonCall c).1.dues = w.dues := by
  obtain ⟨_, hdues, _⟩ := fold_abandonInvocation (P := fun v => v.dues = w.dues)
    (fun v d i hv hdues hi _ => (hv.dues_detach hi).trans hdues) (c.live.map (·.place)) hs rfl hc
    fun _ hp => hp
  exact hdues

/-- **What a step does to the quota of a partition.** -/
theorem Step.admits (hstep : Step A w act seen w') (hs : w.Sound)
    (hq : w.executor.quotaOf partition = some q) :
    q.Admits (w.dues.lookup partition) ((w.startsOf partition act seen).map (· * 1000000))
      (w'.dues.lookup partition) := by
  cases hstep with
  | begin agents task prompts => exact .refl
  | @turn a response seen w' _ ht =>
      cases ht with
      | idle _ =>
          change q.Admits _ ((w.startsBy partition a []).map _) (w.dues.lookup partition)
          rw [startsBy, sendTimes_nil, ite_self]
          exact .refl
      | acts hacts => exact hacts.admits (w := w.rise a) (hs.rise a) hq
  | @cancel c hc =>
      have hdues : (w.cancelCall c).dues = w.dues :=
        cancelCall_keeps (P := fun v => v.dues = w.dues) rfl fun _ _ h => h
      rw [hdues]
      exact .refl
  | @abandon c hc =>
      rw [hs.dues_abandonCall hc]
      exact .refl
  | pass _ _ _ => exact .refl

/-- In a turn requests are sent at the present time. -/
theorem Acts.time_of_sent (hacts : Acts A a w seen w') : ∀ t ∈ sendTimes seen, t = w.now := by
  induction hacts with
  | last hm => simp [hm.sendTimes_eq_nil]
  | move hm _ ih =>
      intro t ht
      rw [sendTimes_append, List.mem_append] at ht
      rcases ht with ht | ht
      · cases hm with
        | start | take => cases ht
        | report => simp at ht
        | send => exact List.mem_singleton.1 ht
      · exact (ih t ht).trans hm.steady.now

/-- Requests are sent at the present time. -/
theorem Step.time_of_start (hstep : Step A w act seen w') :
    ∀ t ∈ w.startsOf partition act seen, t = w.now := by
  intro t ht
  cases hstep with
  | begin | cancel | abandon | pass => cases ht
  | @turn a response seen w' _ hturn =>
      simp only [startsOf, startsBy] at ht
      split at ht
      · cases hturn with
        | idle _ => cases ht
        | acts hacts => exact hacts.time_of_sent t ht
      · cases ht

/-- Time does not go back. -/
theorem Step.now_le (hstep : Step A w act seen w') : w.now ≤ w'.now := by
  cases hstep with
  | begin => exact le_rfl
  | turn _ ht => exact ht.steady.now.ge
  | @cancel c _ => exact (steady_cancelCall w c).now.ge
  | @abandon c _ => exact (steady_abandonCall w c).now.ge
  | pass _ hle _ => exact hle

/-! ### What a run does to a quota -/

/-- A run that goes on. -/
theorem startsIn_append (partition : String) (w : World) (h h' : Trace) :
    startsIn partition w (h ++ h') = startsIn partition w h ++
      startsIn partition ((h.map Prod.fst).foldl after w) h' := by
  induction h generalizing w with
  | nil => rfl
  | cons entry rest ih =>
      simp only [List.cons_append, startsIn, List.map_cons, List.foldl_cons, ih, List.append_assoc]

/-- The steps of a run lead to its end. -/
theorem Run.foldl_after {h : Trace} (hrun : Run A w h w') :
    (h.map Prod.fst).foldl after w = w' := by
  induction hrun with
  | refl => rfl
  | step _ _ hs ih => simp [List.foldl_append, ih, after, hs]

/-- **The requests of a run are admitted one after another**, in the order of their times. -/
theorem Run.admits {h : Trace} (hrun : Run A w h w') (hs : w.Sound)
    (hq : w.executor.quotaOf partition = some q) :
    q.Admits (w.dues.lookup partition) ((startsIn partition w h).map (· * 1000000))
      (w'.dues.lookup partition) ∧
    (startsIn partition w h).Pairwise (· ≤ ·) ∧ ∀ t ∈ startsIn partition w h, t ≤ w'.now := by
  induction hrun with
  | refl => exact ⟨.refl, .nil, by simp [startsIn]⟩
  | @step h v v' act seen hrun hlaw hstep ih =>
      obtain ⟨hadmits, hordered, hpast⟩ := ih
      obtain ⟨hsound, hexec, _⟩ := hrun.sound hs
      have hstep' := step_of_step? hstep hlaw
      have htimes : ∀ t ∈ v.startsOf partition act seen, t = v.now := hstep'.time_of_start
      have happend : startsIn partition w (h ++ [(act, seen)]) =
          startsIn partition w h ++ v.startsOf partition act seen := by
        rw [startsIn_append, hrun.foldl_after]
        simp [startsIn]
      rw [happend, List.map_append]
      refine ⟨hadmits.trans (hstep'.admits hsound (hexec ▸ hq)),
        List.pairwise_append.2 ⟨hordered, ?_, ?_⟩, ?_⟩
      · exact List.pairwise_of_forall_mem_list fun s hs t ht =>
          ((htimes s hs).trans (htimes t ht).symm).le
      · intro s hs t ht
        rw [htimes t ht]
        exact hpast s hs
      · intro t ht
        rcases List.mem_append.1 ht with ht | ht
        · exact (hpast t ht).trans hstep'.now_le
        · rw [htimes t ht]
          exact hstep'.now_le

end World

/-! ### The bound -/

open World (anyLaw idle startsIn) in
/-- **How many requests a quota admits.**  Let a quota allow `n` requests a minute, so that even
requests come every `60 * 10 ^ 9 / n` nanoseconds.  Whoever comes to it and whenever, who sleeps and
in whatever order those ask who might: in a window of any length at most `n` are admitted, and one
more for every distance that fits into it; at one instant at most `n`.  The same holds of the
requests that an executor sends for a partition with this quota, over all its calls: each of them takes its
place in the quota, one after another from the unused quota to its present state, and nobody else
does. (A distance is not zero, since numbers of requests have 32 bits.) -/
theorem Quota.rate_bound {n : Nat} (hn : 0 < n) (hmany : n ≤ 60000000000) :
    (∀ (opening : Nat) (times : List Nat) (s : QuotaQueue),
      QuotaQueue.Run (.unused (perMinute n) opening) times s →
        ∀ start length, countIn start length times ≤ n + length / (60000000000 / n)) ∧
    ∀ (x : Executor) (partition : String) (trace : Trace) (w : World),
      x.settings.partitionQuotas.lookup partition = some n → World.Run anyLaw (idle x) trace w →
        (perMinute n).Admits none ((startsIn partition (idle x) trace).map (· * 1000000))
          (w.dues.lookup partition) ∧
        ∀ start length, countIn start length ((startsIn partition (idle x) trace).map
          (· * 1000000)) ≤ n + length / (60000000000 / n) := by
  refine ⟨?_, ?_⟩
  · intro opening times s hrun
    obtain ⟨hadmits, hordered, _⟩ := hrun.admits
    exact countIn_le_of_perMinute hn hmany hadmits hordered
  · intro x partition trace w hquota hrun
    have hq : (idle x).executor.quotaOf partition = some (perMinute n) := by
      simp [idle, Executor.quotaOf, hquota]
    obtain ⟨hadmits, hordered, _⟩ := hrun.admits (World.sound_idle x) hq
    have hnanos : ((startsIn partition (idle x) trace).map (· * 1000000)).Pairwise (· ≤ ·) :=
      List.pairwise_map.2 (hordered.imp fun h => Nat.mul_le_mul_right _ h)
    exact ⟨hadmits, countIn_le_of_perMinute hn hmany hadmits hnanos⟩

namespace Sample

/-- An executor that sends two requests at a time, and one a minute. -/
def rationed : Executor :=
  ⟨⟨"pair", 2, .zero, false, "Two requests at a time"⟩,
    { ExecutorSettings.standard with partitionQuotas := [("p", 1)] }⟩

/-- Two agents of one partition. -/
def pair : List Agent :=
  [.create "a" "analyst" default "p" defaultProfile 1,
    .create "b" "analyst" default "p" defaultProfile 1]

/-- The executor when it begins to ask the two agents. -/
def rationedBegun : World := (World.idle rationed).beginCall pair task prompts

/-- The first minute: one request is sent and the other waits. -/
def firstMinute : Trace × World :=
  rationedBegun.follow default [.caller 0, .invocation 0 0, .invocation 0 1]

/-- After a minute the other request is sent. -/
def secondMinute : Trace × World :=
  (firstMinute.2.passTo 60000).follow default [.invocation 0 1]

/-- Both minutes. -/
def minutes : Trace :=
  (.begin pair task prompts, []) :: (firstMinute.1 ++ (.pass 60000, []) :: secondMinute.1)

theorem run_minutes : World.Run World.anyLaw (World.idle rationed) minutes secondMinute.2 := by
  have hbegin : World.Run World.anyLaw (World.idle rationed) [(.begin pair task prompts, [])]
      rationedBegun := .step (h := []) .refl trivial rfl
  have hfirst : World.Run World.anyLaw rationedBegun firstMinute.1 firstMinute.2 :=
    World.run_follow (fun _ _ => trivial) _ (by decide +kernel)
  have hmay : firstMinute.2.mayPassTo 60000 = true := by decide +kernel
  have hpass : World.Run World.anyLaw firstMinute.2 [(.pass 60000, [])]
      (firstMinute.2.passTo 60000) := .step (h := []) .refl trivial (if_pos hmay)
  have hsecond : World.Run World.anyLaw (firstMinute.2.passTo 60000) secondMinute.1
      secondMinute.2 := World.run_follow (fun _ _ => trivial) _ (by decide +kernel)
  exact hbegin.trans (hfirst.trans (hpass.trans hsecond))

end Sample

/-- The bound is met: in the first minute, its end included, a quota of one admits two requests, and
so the executor sends two. -/
theorem Quota.rate_bound_met :
    let s := QuotaQueue.unused (perMinute 1) 0
    let asleep : QuotaQueue := { s with due := some 60000000000, sleeping := [⟨2, 60000000000⟩] }
    let late : QuotaQueue := { s with now := 60000000000, due := some 120000000000 }
    s.step? (.come 1) = some ({ asleep with sleeping := [] }, [0]) ∧
    QuotaQueue.Run s [0, 60000000000] late ∧
    countIn 0 60000000000 [0, 60000000000] = 2 ∧
    countIn 0 60000000000 [0, 60000000000] ≤ 1 + 60000000000 / (60000000000 / 1) ∧
    World.startsIn "p" (World.idle Sample.rationed) Sample.minutes = [0, 60000] ∧
    countIn 0 60000000000 ([0, 60000].map (· * 1000000)) ≤
      1 + 60000000000 / (60000000000 / 1) := by
  intro s asleep late
  have hfirst : QuotaQueue.Run s [0] { asleep with sleeping := [] } :=
    .step .refl (show s.step? (.come 1) = some (_, [0]) by decide +kernel)
  have hsleep : QuotaQueue.Run s [0] asleep :=
    .step hfirst (show QuotaQueue.step? _ (.come 2) = some (asleep, []) by decide +kernel)
  have hpass : QuotaQueue.Run s [0] { asleep with now := 60000000000 } :=
    .step hsleep (show QuotaQueue.step? _ (.pass 60000000000) =
      some ({ asleep with now := 60000000000 }, []) by decide +kernel)
  have hrun : QuotaQueue.Run s [0, 60000000000] late :=
    .step hpass (show QuotaQueue.step? _ (.wake ⟨2, 60000000000⟩) =
      some (late, [60000000000]) by decide +kernel)
  have hstarts : World.startsIn "p" (World.idle Sample.rationed) Sample.minutes = [0, 60000] := by
    decide +kernel
  have hbound := Quota.rate_bound (n := 1) (by decide) (by decide)
  refine ⟨by decide +kernel, hrun, by decide +kernel, hbound.1 0 _ _ hrun _ _, hstarts, ?_⟩
  have hsent :=
    (hbound.2 Sample.rationed "p" Sample.minutes _ rfl Sample.run_minutes).2 0 60000000000
  rwa [hstarts] at hsent

end AgentSwarm
