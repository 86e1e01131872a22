/-
**The termination measure of an executor.**

Every time an actor goes on, and every time the clock goes to the next alarm, what is left to do
becomes less.  First of all it counts how many requests may still be sent.  As long as none is
sent, no quota changes: then the steps up to the end of every invocation and every batch are counted,
and an invocation that waits for its quota counts more if it will be turned away again.  It is turned
away only when another request was sent since it began to wait.

Main definitions:

* `AgentSwarm.World.admits`, `AgentSwarm.World.Timely` — whether a quota admits a request at a time,
  and whether it does so when an actor goes on next;
* `AgentSwarm.World.unsent`, `AgentSwarm.World.effort` — what is left to do, by requests and by steps;
* `AgentSwarm.World.measure` — both, with the order of requests first.

Main results:

* `AgentSwarm.World.Turn.measure_lt` — **a turn makes the measure less**;
* `AgentSwarm.World.measure_passTo_lt` — so does the clock.
-/

import AgentSwarm.Proofs.Executor.Awake
import Mathlib.Data.Prod.Lex

set_option relaxedAutoImplicit false
set_option autoImplicit false

namespace AgentSwarm

/-! ### When a quota admits a request -/

theorem Quota.isOk_check_iff {q : Quota} {due : Option Nat} {now : Nat} :
    (q.check due now).isOk = true ↔ q.opensAt (due.getD now) ≤ now := by
  simp only [check]
  split
  next hopen => simpa [Except.isOk, Except.toBool] using hopen
  next hopen => simpa [Except.isOk, Except.toBool] using hopen

/-- Who may ask at a time may ask later. -/
theorem Quota.isOk_check_mono {q : Quota} {due : Option Nat} {now later : Nat} (hle : now ≤ later)
    (h : (q.check due now).isOk = true) : (q.check due later).isOk = true := by
  rw [isOk_check_iff] at h ⊢
  cases due with
  | none => simp [opensAt]
  | some due => exact Nat.le_trans h hle

/-- Who is turned away may ask at the first millisecond after the time it is told. -/
theorem Quota.isOk_check_ceilMillis {q : Quota} {due : Option Nat} {now retry : Nat}
    (h : q.check due now = .error retry) :
    (q.check due ((Duration.mk retry).ceilMillis * 1000000)).isOk = true := by
  cases due with
  | none =>
      have hopen : (q.check none now).isOk = true := isOk_check_iff.2 (by simp [opensAt])
      rw [h] at hopen
      cases hopen
  | some due =>
      obtain ⟨next, hnext⟩ := check_at_retry h
      have hle : retry ≤ (Duration.mk retry).ceilMillis * 1000000 := by
        simp only [Duration.ceilMillis]
        omega
      exact isOk_check_mono hle (by rw [hnext]; rfl)

namespace World

/-- Whether the quota of a partition would admit a request at a time. -/
def admits (w : World) (partition : String) (t : Nat) : Bool :=
  match w.executor.quotaOf partition with
  | none => true
  | some q => (q.check (w.dues.lookup partition) (t * 1000000)).isOk

/-- An actor is timely when its quota admits its request now, or when its alarm comes. -/
def Timely (w : World) (a : Actor) (partition : String) : Prop :=
  ∃ t, (t = w.now ∨ (t, a) ∈ w.alarms) ∧ w.admits partition t = true

variable {w v : World} {a : Actor} {c d : TaskCall} {i : Invocation} {partition : String} {t : Nat}

theorem admits_mono {t' : Nat} (hle : t ≤ t') (h : w.admits partition t = true) :
    w.admits partition t' = true := by
  simp only [admits] at h ⊢
  cases hq : w.executor.quotaOf partition with
  | none => rfl
  | some q =>
      rw [hq] at h
      exact Quota.isOk_check_mono (Nat.mul_le_mul_right _ hle) h

theorem not_admits_of_checkQuota (h : w.checkQuota partition = .error t) :
    w.admits partition w.now = false ∧ w.admits partition t = true := by
  simp only [checkQuota] at h
  simp only [admits]
  cases hq : w.executor.quotaOf partition with
  | none => simp [hq] at h
  | some q =>
      simp only [hq] at h ⊢
      split at h
      · cases h
      next retry hretry =>
          obtain rfl := Except.error.inj h
          exact ⟨by rw [hretry]; rfl, Quota.isOk_check_ceilMillis hretry⟩

/-- Who is timely stays so as long as quotas are not used and alarms stay. -/
theorem Timely.frame (hx : v.executor = w.executor) (hn : v.now = w.now) (hd : v.dues = w.dues)
    (hal : ∀ t, (t, a) ∈ w.alarms → (t, a) ∈ v.alarms) (h : w.Timely a partition) :
    v.Timely a partition := by
  obtain ⟨t, ht, hadmits⟩ := h
  refine ⟨t, ?_, ?_⟩
  · rw [hn]
    exact ht.imp_right (hal t)
  · rw [admits, hx, hd]
    exact hadmits

/-! ### What is left to do -/

open scoped Classical in
/-- The steps that are left for an invocation, beside those of its alarm. -/
noncomputable def rank (w : World) (a : Actor) (i : Invocation) : Nat :=
  match i.stage with
  | .fresh => 6
  | .queued => 5
  | .admitted => 4
  | .throttled => if w.Timely a i.agent.partition then 1 else 3
  | .calling _ _ => 1

theorem rank_pos (w : World) (a : Actor) (i : Invocation) : 0 < w.rank a i := by
  unfold rank
  split <;> try split
  all_goals omega

/-- Who is timely has less left to do. -/
theorem rank_le (h : ∀ a partition, w.Timely a partition → v.Timely a partition) (a : Actor)
    (i : Invocation) : v.rank a i ≤ w.rank a i := by
  unfold rank
  cases i.stage with
  | throttled =>
      simp only
      split
      next => split <;> omega
      next hv =>
          rw [if_neg fun hw => hv (h a _ hw)]
  | fresh | queued | admitted | calling => exact le_rfl

end World

/-- The requests that a call may still send. -/
def TaskCall.unsent (c : TaskCall) : Nat :=
  c.remaining.flatten.length + c.total fun i => if i.stage.isCalling then 0 else 1

/-- The steps that are left for a call. -/
def TaskCall.load (c : TaskCall) (rank : Actor → Invocation → Nat) : Nat :=
  (c.remaining.map fun batch => 8 * batch.length + 6).sum + (if c.isPausing then 0 else 3) +
    c.total fun i => rank (World.actorOf c i) i

namespace World

/-- The requests that may still be sent. -/
def unsent (w : World) : Nat := (w.calls.map TaskCall.unsent).sum

/-- The steps that are left for all calls. -/
noncomputable def charge (w : World) : Nat := (w.calls.map (·.load w.rank)).sum

/-- The steps that are left as long as no request is sent. -/
noncomputable def effort (w : World) : Nat := w.charge + w.ready.length + 2 * w.alarms.length

/-- **What is left to do**: requests first, and then steps. -/
noncomputable def measure (w : World) : Nat ×ₗ Nat := toLex (w.unsent, w.effort)

variable {w v : World} {a : Actor} {c d : TaskCall} {i : Invocation} {partition : String} {t : Nat}

theorem measure_le (hunsent : v.unsent ≤ w.unsent) (heffort : v.effort ≤ w.effort) :
    v.measure ≤ w.measure := by
  rw [measure, measure, Prod.Lex.toLex_le_toLex]
  rcases Nat.lt_or_eq_of_le hunsent with h | h
  · exact .inl h
  · exact .inr ⟨h, heffort⟩

theorem measure_lt (hunsent : v.unsent ≤ w.unsent) (heffort : v.effort < w.effort) :
    v.measure < w.measure := by
  rw [measure, measure, Prod.Lex.toLex_lt_toLex]
  rcases Nat.lt_or_eq_of_le hunsent with h | h
  · exact .inl h
  · exact .inr ⟨h, heffort⟩

theorem measure_lt_of_unsent (hunsent : v.unsent < w.unsent) : v.measure < w.measure := by
  rw [measure, measure, Prod.Lex.toLex_lt_toLex]
  exact .inl hunsent

/-! ### Changes of calls -/

/-- Changing an invocation changes what may still be sent. -/
theorem unsent_adjust {f : Invocation → Invocation} (h : w.Listed) (hi : w.Has c i)
    (hv : v.calls = (w.putCall (c.adjust i.place f)).calls) :
    v.unsent + (if i.stage.isCalling then 0 else 1) =
      w.unsent + if (f i).stage.isCalling then 0 else 1 := by
  have hcalls := sum_map_putCall (c := c.adjust i.place f) h.ids_nodup hi.call TaskCall.unsent
  have hlive := TaskCall.total_adjust (f := f) (h.tidy c hi.mem_calls).places_nodup hi.unit
    fun i => if i.stage.isCalling then 0 else 1
  have hremaining : (c.adjust i.place f).remaining = c.remaining := rfl
  simp only [TaskCall.unsent, hremaining] at hcalls
  simp only [unsent, hv]
  omega

/-- Taking an invocation away leaves no more to send. -/
theorem unsent_without (h : w.Listed) (hi : w.Has c i)
    (hv : v.calls = (w.putCall (c.without i.place)).calls) : v.unsent ≤ w.unsent := by
  have hcalls := sum_map_putCall (c := c.without i.place) h.ids_nodup hi.call TaskCall.unsent
  have hlive := TaskCall.total_without (h.tidy c hi.mem_calls).places_nodup hi.unit
    fun i => if i.stage.isCalling then 0 else 1
  have hremaining : (c.without i.place).remaining = c.remaining := rfl
  simp only [TaskCall.unsent, hremaining] at hcalls
  simp only [unsent, hv]
  omega

/-- Writing a call charges its new version instead of the old one. -/
theorem charge_putCall (h : w.Listed) (hc : w.call? d.id = some c)
    (hv : v.calls = (w.putCall d).calls)
    (hlater : ∀ a partition, w.Timely a partition → v.Timely a partition) :
    v.charge + c.load w.rank ≤ w.charge + d.load v.rank := by
  have hid := id_of_call? hc
  have hle : ∀ e : TaskCall, e.load v.rank ≤ e.load w.rank := fun e =>
    Nat.add_le_add_left (List.sum_le_sum fun i _ => rank_le hlater _ i) _
  have hreplace := sum_map_replace_le h.ids_nodup (mem_calls_of_call? hc) (fun _ => d) hle
  rw [hid] at hreplace
  rwa [charge, hv]

/-- Changing an invocation charges its new rank instead of the old one. -/
theorem charge_adjust {f : Invocation → Invocation} (hf : ∀ j, (f j).place = j.place)
    (h : w.Listed) (hi : w.Has c i) (hv : v.calls = (w.putCall (c.adjust i.place f)).calls)
    (hlater : ∀ a partition, w.Timely a partition → v.Timely a partition) :
    v.charge + w.rank (actorOf c i) i ≤ w.charge + v.rank (actorOf c i) (f i) := by
  have hcalls := charge_putCall (d := c.adjust i.place f) h hi.call hv hlater
  have hlive := sum_map_replace_le (h.tidy c hi.mem_calls).places_nodup hi.mem_live f
    fun j => rank_le hlater (actorOf c j) j
  have hactor : actorOf c (f i) = actorOf c i := by rw [actorOf, actorOf, hf]
  simp only [hactor] at hlive
  have hload : (c.adjust i.place f).load v.rank + w.rank (actorOf c i) i ≤
      c.load w.rank + v.rank (actorOf c i) (f i) := by
    have hremaining : (c.adjust i.place f).remaining = c.remaining := rfl
    have hpausing : (c.adjust i.place f).isPausing = c.isPausing := rfl
    have hlive' : (c.adjust i.place f).total
        (fun j => v.rank (actorOf (c.adjust i.place f) j) j) + w.rank (actorOf c i) i ≤
        c.total (fun j => w.rank (actorOf c j) j) + v.rank (actorOf c i) (f i) := hlive
    simp only [TaskCall.load, hremaining, hpausing]
    omega
  omega

/-- Taking an invocation away takes its rank off the charge. -/
theorem charge_without (h : w.Listed) (hi : w.Has c i)
    (hv : v.calls = (w.putCall (c.without i.place)).calls)
    (hlater : ∀ a partition, w.Timely a partition → v.Timely a partition) :
    v.charge + w.rank (actorOf c i) i ≤ w.charge := by
  have hcalls := charge_putCall (d := c.without i.place) h hi.call hv hlater
  have hlive := TaskCall.total_without (h.tidy c hi.mem_calls).places_nodup hi.unit
    fun j => w.rank (actorOf c j) j
  have hle : (c.without i.place).total (fun j => v.rank (actorOf c j) j) ≤
      (c.without i.place).total fun j => w.rank (actorOf c j) j :=
    List.sum_le_sum fun j _ => rank_le hlater _ j
  have hload : (c.without i.place).load v.rank + w.rank (actorOf c i) i ≤ c.load w.rank := by
    have hremaining : (c.without i.place).remaining = c.remaining := rfl
    have hpausing : (c.without i.place).isPausing = c.isPausing := rfl
    have hactor : ∀ j, actorOf (c.without i.place) j = actorOf c j := fun _ => rfl
    simp only [TaskCall.load, hremaining, hpausing, hactor]
    omega
  omega

/-- A call may be written that may send as many requests. -/
theorem unsent_putCall (h : w.Listed) (hc : w.call? d.id = some c)
    (hv : v.calls = (w.putCall d).calls) (hsame : d.unsent = c.unsent) : v.unsent = w.unsent := by
  have hsum := sum_map_putCall h.ids_nodup hc TaskCall.unsent
  simp only [unsent, hv]
  omega

/-- An invocation is changed without a request, and nothing else that counts: the effort falls with
its rank. -/
theorem adjust_decreases {n : Nat} {f : Invocation → Invocation} (hf : ∀ j, (f j).place = j.place)
    (h : w.Listed) (hi : w.Has c i) (hv : v.calls = (w.putCall (c.adjust i.place f)).calls)
    (hx : v.executor = w.executor) (hn : v.now = w.now) (hd : v.dues = w.dues)
    (hr : v.ready = w.ready) (hal : v.alarms = w.alarms)
    (hcalling : (f i).stage.isCalling = i.stage.isCalling)
    (hrank : v.rank (actorOf c i) (f i) + n ≤ w.rank (actorOf c i) i) :
    v.unsent = w.unsent ∧ v.effort + n ≤ w.effort := by
  have hunsent := unsent_adjust h hi hv
  have hcharge := charge_adjust hf h hi hv fun a partition =>
    Timely.frame hx hn hd fun _ ht => hal ▸ ht
  rw [hcalling] at hunsent
  refine ⟨by omega, ?_⟩
  simp only [effort, hr, hal]
  omega

/-- Who is ready makes the effort no smaller than it was by more than one. -/
theorem effort_wake (w : World) (a : Actor) : (w.wake a).effort ≤ w.effort + 1 := by
  have hready : (w.wake a).ready.length ≤ w.ready.length + 1 := by
    simp only [wake]
    split
    · exact Nat.le_succ _
    · simp
  have hcharge : (w.wake a).charge = w.charge := rfl
  have halarms : (w.wake a).alarms = w.alarms := rfl
  simp only [effort, hcharge, halarms]
  omega

/-! ### Invocations that end -/

/-- An invocation that leaves its pool leaves no more to do. -/
theorem leavePool_decreases (hs : w.Sound) (hi : w.Has c i) :
    (w.leavePool c.id i).unsent ≤ w.unsent ∧ (w.leavePool c.id i).effort ≤ w.effort ∧
      (w.leavePool c.id i).alarms = w.alarms ∧ (w.leavePool c.id i).dues = w.dues := by
  rcases leavePool_cases hs.queued hi with ⟨pools, he⟩ | ⟨pools, d, j, hj, hstage, _, he⟩
  · rw [he]
    exact ⟨le_rfl, le_rfl, rfl, rfl⟩
  · obtain ⟨hunsent, heffort⟩ := adjust_decreases (n := 1)
      (v := ({ w with pools } : World).putCall (d.setStage j.place .admitted))
      (f := fun i => { i with stage := .admitted }) (fun _ => rfl) hs.listed hj rfl rfl rfl rfl rfl
      rfl (by rw [hstage]; rfl) (by simp [rank, hstage])
    -- the step that the invocation is woken for was counted while it waited
    have hwake := effort_wake (({ w with pools } : World).putCall (d.setStage j.place .admitted))
      (actorOf d j)
    rw [he]
    exact ⟨hunsent.le, hwake.trans heffort, rfl, rfl⟩

/-- An invocation that is away and is given up takes a step off what is left. -/
theorem detach_decreases (hs : w.Sound) (hi : w.Has c i) (ha : w.Away (actorOf c i)) :
    (w.detach c.id i).unsent ≤ w.unsent ∧ (w.detach c.id i).effort + 1 ≤ w.effort := by
  obtain ⟨c₁, _, h₁, he⟩ := detach_eq hs.queued hi
  obtain ⟨hunsent, heffort, halarms, hdues⟩ := leavePool_decreases hs hi
  have hlisted := hs.listed.leavePool (i := i) hs.queued c.id
  generalize w.leavePool c.id i = u at h₁ he hunsent heffort halarms hdues hlisted
  have hcalls : (w.detach c.id i).calls = (u.putCall (c₁.without i.place)).calls := by
    rw [he]
    rfl
  have hlater : ∀ a partition, u.Timely a partition → (w.detach c.id i).Timely a partition := by
    intro a partition
    rw [he]
    refine Timely.frame (w := u) rfl rfl rfl ?_
    intro t ht
    refine List.mem_filter.2 ⟨ht, ?_⟩
    have hne : a ≠ actorOf c i := by
      rintro rfl
      exact ha.alarms t (halarms ▸ ht)
    simpa using hne
  have hunsent' := unsent_without hlisted h₁ hcalls
  have hcharge := charge_without hlisted h₁ hcalls hlater
  have hpos := u.rank_pos (actorOf c₁ i) i
  have hready : (w.detach c.id i).ready.length ≤ u.ready.length := by
    rw [he]
    exact List.length_filter_le _ _
  have halarms' : (w.detach c.id i).alarms.length ≤ u.alarms.length := by
    rw [he]
    exact List.length_filter_le _ _
  simp only [effort] at heffort ⊢
  omega

/-- An invocation that ends leaves no more to do: its caller has a step of its own at most. -/
theorem finish_decreases (hs : w.Sound) (hi : w.Has c i) (ha : w.Away (actorOf c i))
    (ending : Ending) :
    (w.finish c.id i ending).unsent ≤ w.unsent ∧ (w.finish c.id i ending).effort ≤ w.effort := by
  obtain ⟨c₁, hgrant, _, hcall, he⟩ := finish_eq hs.queued hi ending
  obtain ⟨hunsent, heffort⟩ := detach_decreases hs hi ha
  generalize hd : c₁.settle i (w.executor.resultOf i.agent i.serial i.startedAt w.now ending) = d
    at he
  have hid : d.id = c.id := by rw [← hd]; exact hgrant.id_eq
  generalize hv : (w.detach c.id i).putCall d = v at he
  have hcalls : v.calls = ((w.detach c.id i).putCall d).calls := by rw [← hv]
  have hlisted := (hs.detach hi).listed
  have hput : v.unsent = (w.detach c.id i).unsent :=
    unsent_putCall (d := d) hlisted (by rw [hid]; exact hcall) hcalls (by rw [← hd]; rfl)
  have hcharge := charge_putCall (d := d) hlisted (by rw [hid]; exact hcall) hcalls
    fun a partition => by
      rw [← hv]
      exact Timely.frame rfl rfl rfl fun _ ht => ht
  have hload : d.load v.rank = (c₁.without i.place).load (w.detach c.id i).rank := by
    rw [← hd, ← hv]
    rfl
  have hlight : v.effort ≤ (w.detach c.id i).effort := by
    have hready : v.ready = (w.detach c.id i).ready := by rw [← hv]; rfl
    have halarms : v.alarms = (w.detach c.id i).alarms := by rw [← hv]; rfl
    simp only [effort, hready, halarms]
    omega
  rw [he]
  dsimp only
  split
  · have hwake := effort_wake v (.caller c.id)
    refine ⟨?_, by omega⟩
    change v.unsent ≤ w.unsent
    omega
  · omega

/-! ### Batches -/

/-- A batch that is dispatched is left to nobody else: for each of its agents there may be an
invocation, whose request is still to be sent. -/
theorem unsent_dispatch_le {batch : List Nat} {rest : List (List Nat)} (hs : w.Sound)
    (hc : w.call? c.id = some c) (hlive : c.live = []) (hrem : c.remaining = batch :: rest) :
    (w.dispatch c batch rest).1.unsent ≤ w.unsent := by
  obtain ⟨-, hplaces⟩ := c.live_openNext w.now w.nextSerial batch rest
  have hlength := hplaces.length_le
  rw [List.length_map] at hlength
  generalize hd : c.openNext w.now w.nextSerial batch rest = d at hlength
  have hdrem : d.remaining = rest := by rw [← hd]; rfl
  have hcall : w.call? d.id = some c := by rw [← hd]; exact hc
  have hcalls : (w.dispatch c batch rest).1.calls = (w.putCall d).calls := by rw [← hd]; rfl
  have hsum := sum_map_putCall (c := d) hs.listed.ids_nodup hcall TaskCall.unsent
  have hold : c.unsent = batch.length + rest.flatten.length := by
    simp [TaskCall.unsent, TaskCall.total, hlive, hrem]
  have htotal := TaskCall.total_le_length_mul (c := d) (n := 1)
    (fun i => if i.stage.isCalling then 0 else 1) fun i _ => by split <;> omega
  have hnew : d.unsent ≤ rest.flatten.length + d.live.length := by
    simp only [TaskCall.unsent, hdrem]
    omega
  simp only [unsent, hcalls]
  omega

/-- A batch that is dispatched leaves no more to do: the steps of its invocations were counted
before, and so was the one of a caller that has none. -/
theorem effort_dispatch_le {batch : List Nat} {rest : List (List Nat)} (hs : w.Sound)
    (hc : w.call? c.id = some c) (hrem : c.remaining = batch :: rest) :
    (w.dispatch c batch rest).1.effort ≤ w.effort := by
  obtain ⟨hfresh, hplaces⟩ := c.live_openNext w.now w.nextSerial batch rest
  have hlength := hplaces.length_le
  rw [List.length_map] at hlength
  generalize hd : c.openNext w.now w.nextSerial batch rest = d at hfresh hlength
  have hdrem : d.remaining = rest := by rw [← hd]; rfl
  have hcall : w.call? d.id = some c := by rw [← hd]; exact hc
  have hworld : (w.dispatch c batch rest).1 = { w.putCall d with
      nextSerial := w.nextSerial + d.live.length
      ready := if d.live.isEmpty then .caller c.id :: w.ready
        else w.ready ++ d.live.map fun i => .invocation c.id i.place } := by
    rw [← hd]
    rfl
  generalize (w.dispatch c batch rest).1 = v at hworld
  have hcalls : v.calls = (w.putCall d).calls := by rw [hworld]
  have hcharge := charge_putCall (d := d) hs.listed hcall hcalls fun a partition => by
    rw [hworld]
    exact Timely.frame (w := w) rfl rfl rfl fun _ ht => ht
  have hready : v.ready.length ≤ w.ready.length + d.live.length + 1 := by
    rw [hworld]
    dsimp only
    split
    · simp only [List.length_cons]
      omega
    · simp only [List.length_append, List.length_map]
      omega
  have halarms : v.alarms = w.alarms := by rw [hworld]; rfl
  have htotal := TaskCall.total_le_length_mul (c := d) (n := 6)
    (fun i => v.rank (actorOf d i) i) fun i hi => by simp [rank, hfresh i hi]
  have hpausing : (if d.isPausing then 0 else 3) ≤ 3 := by split <;> omega
  have hnew : d.load v.rank ≤
      (rest.map fun batch => 8 * batch.length + 6).sum + 3 + d.live.length * 6 := by
    simp only [TaskCall.load, hdrem]
    omega
  have hold : 8 * batch.length + 6 + (rest.map fun batch => 8 * batch.length + 6).sum ≤
      c.load w.rank := by
    simp only [TaskCall.load, hrem, List.map_cons, List.sum_cons]
    omega
  simp only [effort, halarms]
  omega

/-! ### Moves -/

variable {A : BackendLaw} {w' : World} {seen : List Occurrence}

/-- An actor is due when it has something to do, if it is there. -/
def Due (w : World) (a : Actor) : Prop := ∀ s, w.standing? a = some s → s.Runs w.now

theorem due_caller (w : World) (k : Nat) : w.Due (.caller k) := by
  intro s hs
  obtain ⟨c, _, hc⟩ := Option.bind_eq_some_iff.1 hs
  rw [Option.ite_none_right_eq_some, Option.some.injEq] at hc
  rw [← hc.2]
  trivial

theorem Has.due (hi : w.Has c i) (h : (Standing.unit c.isCancelled i.stage).Runs w.now) :
    w.Due (actorOf c i) := by
  intro s hs
  obtain rfl := Option.some.inj (hi.standing?.symm.trans hs)
  exact h

/-- A move sends a request, or leaves no more to do. -/
theorem Move.decreases (hm : Move A a w seen w') (hs : w.Sound) : w'.unsent < w.unsent ∨
    w'.unsent ≤ w.unsent ∧ w'.effort ≤ w.effort ∧ w'.Due a := by
  cases hm with
  | @start _ c i hi _ hfresh =>
      obtain ⟨hunsent, heffort⟩ := adjust_decreases (n := 0)
        (v := w.putCall (c.adjust i.place fun j => { j with startedAt := w.now }))
        (f := fun j => { j with startedAt := w.now }) (fun _ => rfl) hs.listed hi rfl rfl rfl rfl rfl
        rfl rfl (by simp [rank, hfresh])
      have hnext := hi.adjust (f := fun j => { j with startedAt := w.now }) fun _ => rfl
      exact .inr ⟨hunsent.le, heffort, hnext.due (.inr (.inr hfresh))⟩
  | @take _ c i hi _ hfresh _ =>
      obtain ⟨hunsent, heffort⟩ := adjust_decreases (n := 0)
        (v := (w.putPool (w.keyOf i) { w.pool (w.keyOf i) with
          free := (w.pool (w.keyOf i)).free - 1 }).putCall (c.setStage i.place .admitted))
        (f := fun i => { i with stage := .admitted }) (fun _ => rfl) hs.listed hi rfl rfl rfl rfl rfl
        rfl (by rw [hfresh]; rfl) (by simp [rank, hfresh])
      have hpool : (w.putPool (w.keyOf i) { w.pool (w.keyOf i) with
        free := (w.pool (w.keyOf i)).free - 1 }).Has c i := ⟨hi.call, hi.unit⟩
      have hnext := hpool.setStage .admitted
      exact .inr ⟨hunsent.le, heffort, hnext.due (.inr (.inl ⟨rfl, by simp⟩))⟩
  | @send _ c i due response hi _ hstage _ _ =>
      -- the quota has changed, but a request less may be sent
      refine .inl ?_
      have hcalling : i.stage.isCalling = false := by
        rcases hstage with hstage | hstage <;> rw [hstage] <;> rfl
      have hcalls : ∀ stage : Stage, ((w.putDue i.agent.partition due).putCall
          (c.setStage i.place stage)).calls = (w.putCall (c.setStage i.place stage)).calls := by
        intro stage
        cases due <;> rfl
      have hunsent := unsent_adjust (f := fun j => { j with stage := (.calling
        (w.now + (w.executor.curtail response).1) (w.executor.curtail response).2) })
        hs.listed hi (hcalls _)
      simp only [hcalling, Bool.false_eq_true, if_false] at hunsent
      simp only [Stage.isCalling, if_true] at hunsent
      omega
  | @report _ c hc hlive =>
      have hunsent := unsent_putCall (d := collect c) (v := w.putCall (collect c)) hs.listed hc rfl
        rfl
      have hcharge := charge_putCall (d := collect c) (v := w.putCall (collect c)) hs.listed hc rfl
        fun _ _ => Timely.frame rfl rfl rfl fun _ ht => ht
      have hload : (collect c).load (w.putCall (collect c)).rank = c.load w.rank := rfl
      refine .inr ⟨hunsent.le, ?_, due_caller _ _⟩
      simp only [effort]
      change _ + w.ready.length + 2 * w.alarms.length ≤ _
      omega

/-- An invocation that begins to wait for its quota leaves no more to do: it is timely then. -/
theorem throttle_decreases (hs : w.Sound) (ha : w.Away (actorOf c i)) (hi : w.Has c i)
    (hstage : i.stage = .admitted ∨ i.stage = .throttled)
    (hquota : w.checkQuota i.agent.partition = .error t)
    (hv : v = (w.putCall (c.setStage i.place .throttled)).sleepUntil t (actorOf c i)) :
    v.unsent ≤ w.unsent ∧ v.effort ≤ w.effort := by
  obtain ⟨hnow, hlater⟩ := not_admits_of_checkQuota hquota
  have hcalls : v.calls = (w.putCall (c.setStage i.place .throttled)).calls := by
    rw [hv]
    rfl
  have hunsent := unsent_adjust (f := fun i => { i with stage := .throttled }) hs.listed hi hcalls
  have hcharge := charge_adjust (f := fun i => { i with stage := .throttled }) (fun _ => rfl)
    hs.listed hi hcalls fun a partition => by
      rw [hv]
      exact Timely.frame rfl rfl rfl fun _ ht => List.mem_append_left _ ht
  -- it was not timely, and now its alarm comes when its quota admits it
  have htimely : v.Timely (actorOf c i) i.agent.partition := by
    rw [hv]
    exact ⟨t, .inr (List.mem_append_right _ (List.mem_singleton.2 rfl)), hlater⟩
  have hold : 3 ≤ w.rank (actorOf c i) i := by
    have hnot : ¬ w.Timely (actorOf c i) i.agent.partition := by
      rintro ⟨t', rfl | ht, hadmits⟩
      · rw [hnow] at hadmits
        cases hadmits
      · exact ha.alarms t' ht
    rcases hstage with hstage | hstage <;> simp [rank, hstage, hnot]
  have hnew : v.rank (actorOf c i) { i with stage := .throttled } = 1 := by
    simp [rank, htimely]
  have hready : v.ready = w.ready := by rw [hv]; rfl
  have halarms : v.alarms.length = w.alarms.length + 1 := by
    rw [hv]
    simp [sleepUntil, putCall]
  have hcalling : i.stage.isCalling = false := by
    rcases hstage with hstage | hstage <;> rw [hstage] <;> rfl
  simp only [hcalling, Bool.false_eq_true, if_false] at hunsent
  simp only [Stage.isCalling, Bool.false_eq_true, if_false] at hunsent
  refine ⟨by omega, ?_⟩
  simp only [effort, hready, halarms]
  omega

/-- A caller that begins to pause leaves no more to do: it does so once for every batch. -/
theorem pause_decreases (hs : w.Sound) (hc : w.call? c.id = some c) (hp : w.pauses c = true)
    (hv : v = (w.putCall { c with isPausing := true }).sleepUntil t (.caller c.id)) :
    v.unsent ≤ w.unsent ∧ v.effort ≤ w.effort := by
  have hpausing : c.isPausing = false := by
    simp only [pauses, Bool.and_eq_true, Bool.not_eq_true'] at hp
    exact hp.2
  have hcalls : v.calls = (w.putCall { c with isPausing := true }).calls := by
    rw [hv]
    rfl
  have hunsent := unsent_putCall (d := { c with isPausing := true }) hs.listed hc hcalls rfl
  have hlater : ∀ a partition, w.Timely a partition → v.Timely a partition := by
    intro a partition
    rw [hv]
    exact Timely.frame rfl rfl rfl fun _ ht => List.mem_append_left _ ht
  have hcharge := charge_putCall (d := { c with isPausing := true }) hs.listed hc hcalls hlater
  have hload : TaskCall.load { c with isPausing := true } v.rank + 3 ≤ c.load w.rank := by
    have htotal : c.total (fun i => v.rank (actorOf c i) i) ≤
        c.total fun i => w.rank (actorOf c i) i :=
      List.sum_le_sum fun i _ => rank_le hlater _ i
    have hnew : TaskCall.load { c with isPausing := true } v.rank =
        (c.remaining.map fun batch => 8 * batch.length + 6).sum + 0 +
          c.total fun i => v.rank (actorOf c i) i := rfl
    simp only [TaskCall.load, hpausing, Bool.false_eq_true, if_false] at hnew ⊢
    omega
  have hready : v.ready = w.ready := by rw [hv]; rfl
  have halarms : v.alarms.length = w.alarms.length + 1 := by
    rw [hv]
    simp [sleepUntil, putCall]
  refine ⟨hunsent.le, ?_⟩
  simp only [effort, hready, halarms]
  omega

/-- A call that returns leaves no more to do. -/
theorem dropCall_decreases (hs : w.Sound) (hc : w.call? c.id = some c) :
    (w.dropCall c.id).unsent ≤ w.unsent ∧ (w.dropCall c.id).effort ≤ w.effort := by
  have hunsent := sum_map_dropCall hs.listed.ids_nodup hc TaskCall.unsent
  have hcharge := sum_map_dropCall hs.listed.ids_nodup hc (·.load w.rank)
  have hsame : (w.dropCall c.id).charge = ((w.dropCall c.id).calls.map (·.load w.rank)).sum := rfl
  constructor
  · simp only [unsent]
    omega
  · simp only [effort, hsame]
    change _ + w.ready.length + 2 * w.alarms.length ≤ w.charge + _ + _
    simp only [charge]
    omega

/-- A last move leaves no more to do, if the actor was due. -/
theorem LastMove.decreases (hm : LastMove a w seen w') (hs : w.Sound) (ha : w.Away a) :
    w'.unsent ≤ w.unsent ∧ (w.Due a → w'.effort ≤ w.effort) := by
  cases hm with
  | @enqueue _ c i hi _ hfresh _ =>
      obtain ⟨hunsent, heffort⟩ := adjust_decreases (n := 0)
        (v := (w.putPool (w.keyOf i) { w.pool (w.keyOf i) with
          waiting := (w.pool (w.keyOf i)).waiting ++ [actorOf c i] }).putCall
            (c.setStage i.place .queued))
        (f := fun i => { i with stage := .queued }) (fun _ => rfl) hs.listed hi rfl rfl rfl rfl rfl
        rfl (by rw [hfresh]; rfl) (by simp [rank, hfresh])
      exact ⟨hunsent.le, fun _ => heffort⟩
  | throttle hi _ hstage hquota =>
      obtain ⟨hunsent, heffort⟩ := throttle_decreases hs ha hi hstage hquota rfl
      exact ⟨hunsent, fun _ => heffort⟩
  | @await _ c i endsAt ending hi hc hcalling hlt =>
      -- an invocation that waits for the backend is not due
      refine ⟨le_rfl, fun hdue => ?_⟩
      rcases hdue _ hi.standing? with hcancelled | ⟨_, hends⟩ | hfresh
      · rw [hc] at hcancelled
        cases hcancelled
      · exact absurd (hends endsAt ending hcalling) (Nat.not_le_of_lt hlt)
      · rw [hcalling] at hfresh
        cases hfresh
  | finish hi _ =>
      obtain ⟨hunsent, heffort⟩ := finish_decreases hs hi ha _
      exact ⟨hunsent, fun _ => heffort⟩
  | pause hc _ _ _ hp =>
      obtain ⟨hunsent, heffort⟩ := pause_decreases hs hc hp rfl
      exact ⟨hunsent, fun _ => heffort⟩
  | dispatch hc hlive _ hrem _ =>
      exact ⟨unsent_dispatch_le hs hc hlive hrem, fun _ => effort_dispatch_le hs hc hrem⟩
  | leave hc _ _ _ =>
      obtain ⟨hunsent, heffort⟩ := dropCall_decreases hs hc
      exact ⟨hunsent, fun _ => heffort⟩

/-! ### Turns -/

/-- Acts leave no more to do, if the actor was due. -/
theorem Acts.decreases (hacts : Acts A a w seen w') (hs : w.Sound) (h : w.Awake (· = a))
    (ha : w.Away a) : w'.unsent ≤ w.unsent ∧ (w.Due a → w'.measure ≤ w.measure) := by
  induction hacts with
  | last hm =>
      obtain ⟨hunsent, heffort⟩ := hm.decreases hs ha
      exact ⟨hunsent, fun hdue => measure_le hunsent (heffort hdue)⟩
  | move hm _ ih =>
      obtain ⟨h', ha'⟩ := hm.awake h ha
      obtain ⟨hunsent', hmeasure'⟩ := ih (hm.sound hs) h' ha'
      rcases hm.decreases hs with hsent | ⟨hunsent, heffort, hdue'⟩
      · have hlt := Nat.lt_of_le_of_lt hunsent' hsent
        exact ⟨hlt.le, fun _ => (measure_lt_of_unsent hlt).le⟩
      · exact ⟨hunsent'.trans hunsent,
          fun _ => (hmeasure' hdue').trans (measure_le hunsent heffort)⟩

/-- A ready actor that goes on takes a step off what is left. -/
theorem measure_rise_lt (ha : a ∈ w.ready) : (w.rise a).measure < w.measure := by
  have hlength := List.length_erase_of_mem ha
  have hpos := List.length_pos_of_mem ha
  have hcharge : (w.rise a).charge = w.charge := rfl
  refine measure_lt le_rfl ?_
  simp only [effort, hcharge]
  change _ + (w.ready.erase a).length + 2 * w.alarms.length < _
  omega

/-- **A turn makes the measure less.** -/
theorem Turn.measure_lt (hs : w.Sound) (h : w.Awake fun _ => False) (ha : a ∈ w.ready)
    (ht : Turn A a (w.rise a) seen w') : w'.measure < w.measure := by
  have hrise := measure_rise_lt ha
  cases ht with
  | idle _ => exact hrise
  | acts hacts =>
      have hdue : (w.rise a).Due a := by
        intro s hstand
        obtain ⟨s', hs', hruns⟩ := h.ready a ha
        obtain rfl := Option.some.inj (hs'.symm.trans hstand)
        exact hruns
      have hdecreases := hacts.decreases (hs.rise a)
        ((h.rise a).excuse fun b hb => hb.resolve_left id) (h.away_rise ha)
      exact (hdecreases.2 hdue).trans_lt hrise

/-! ### The clock -/

/-- **The clock goes to the next alarm, and then less is left to do.** -/
theorem measure_passTo_lt (h : w.Awake fun _ => False) (hready : w.ready = [])
    (hnext : w.nextAlarm = some t) : (w.passTo t).measure < w.measure := by
  obtain ⟨hmem, hmin⟩ := List.min?_eq_some_iff.1 hnext
  obtain ⟨⟨t', a⟩, halarm, rfl⟩ := List.mem_map.1 hmem
  have hlater : ∀ b partition, w.Timely b partition → (w.passTo t').Timely b partition := by
    rintro b partition ⟨t, ht, hadmits⟩
    by_cases hle : t ≤ t'
    · exact ⟨t', .inl rfl, admits_mono hle hadmits⟩
    · have hlt := (h.alarms _ _ halarm).1
      refine ⟨t, .inr ?_, hadmits⟩
      rcases ht with rfl | ht
      · exact absurd hlt.le hle
      · exact List.mem_filter.2 ⟨ht, by simpa using hle⟩
  have hcharge : (w.passTo t').charge ≤ w.charge :=
    List.sum_le_sum fun c _ => Nat.add_le_add_left
      (List.sum_le_sum fun i _ => rank_le hlater _ i) _
  -- an alarm counts two steps and a ready actor one, and the next alarm is due
  have hsplit := List.length_eq_length_filter_add (l := w.alarms) fun b => decide (b.1 ≤ t')
  have hdue : 0 < (w.alarms.filter fun b => decide (b.1 ≤ t')).length :=
    List.length_pos_of_mem (List.mem_filter.2 ⟨halarm, by simp⟩)
  have hready' : (w.passTo t').ready.length =
      (w.alarms.filter fun b => decide (b.1 ≤ t')).length := by
    simp [passTo, hready]
  have halarms' : (w.passTo t').alarms.length =
      (w.alarms.filter fun b => !decide (b.1 ≤ t')).length := rfl
  refine World.measure_lt le_rfl ?_
  simp only [effort, hready', halarms', hready, List.length_nil]
  omega

end World

end AgentSwarm
