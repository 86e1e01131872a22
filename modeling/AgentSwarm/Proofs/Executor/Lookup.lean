/-
**What the changes of a world do to its parts.**

A world is read in three ways: the call of a number, the pool of a key, and the sum of a weight
over the live invocations.  For every change of a world this module says what becomes of these
readings, so that later proofs do not look into the lists behind them.

Main definitions:

* `AgentSwarm.World.unit?` — the invocation that an actor stands for;
* `AgentSwarm.World.Has` — a call of the world with one of its live invocations;
* `AgentSwarm.World.total` — the sum of a weight over all live invocations.

Main results:

* `AgentSwarm.World.call?_putCall`, `AgentSwarm.World.pool_putPool` — reading after writing;
* `AgentSwarm.World.total_putCall` — **changing a call changes a total by the difference of the
  call's own totals**.
-/

import AgentSwarm.Executor.Step
import Mathlib.Data.List.Basic
import Mathlib.Data.List.Nodup
import Mathlib.Algebra.Order.BigOperators.Group.List
import Mathlib.Algebra.Order.Ring.Nat

set_option relaxedAutoImplicit false
set_option autoImplicit false

namespace AgentSwarm

/-! ### Lists with distinct keys -/

section Keyed

variable {A : Type} {key : A → Nat} {xs : List A} {x : A}

/-- An entry and the entries of other keys are all entries. -/
theorem perm_cons_filter_ne (hn : (xs.map key).Nodup) (hx : x ∈ xs) :
    xs.Perm (x :: xs.filter fun y => key y != key x) := by
  induction xs with
  | nil => simp at hx
  | cons y ys ih =>
      simp only [List.map_cons, List.nodup_cons] at hn
      rcases List.mem_cons.1 hx with rfl | hx
      · have hys : ys.filter (fun y => key y != key x) = ys := by
          rw [List.filter_eq_self]
          intro z hz
          have : key z ≠ key x := fun he => hn.1 (List.mem_map.2 ⟨z, hz, he⟩)
          simpa using this
        simp [hys]
      · have hne : (key y != key x) = true := by
          have : key y ≠ key x := fun he => hn.1 (List.mem_map.2 ⟨x, hx, he.symm⟩)
          simpa using this
        rw [List.filter_cons_of_pos (p := fun y => key y != key x) hne]
        exact ((ih hn.2 hx).cons y).trans (List.Perm.swap x y _)

/-- Taking away the entry of a key takes its term out of a sum. -/
theorem sum_map_filter_ne (hn : (xs.map key).Nodup) (hx : x ∈ xs) (f : A → Nat) :
    ((xs.filter fun y => key y != key x).map f).sum + f x = (xs.map f).sum := by
  have hsum := ((perm_cons_filter_ne hn hx).map f).sum_eq
  rw [List.map_cons, List.sum_cons] at hsum
  omega

/-- Replacing the entry of a key changes a sum by the difference of the two terms. -/
theorem sum_map_replace (hn : (xs.map key).Nodup) (hx : x ∈ xs) (g : A → A) (f : A → Nat) :
    ((xs.map fun y => if key y == key x then g y else y).map f).sum + f x =
      (xs.map f).sum + f (g x) := by
  induction xs with
  | nil => simp at hx
  | cons y ys ih =>
      simp only [List.map_cons, List.nodup_cons] at hn
      rcases List.mem_cons.1 hx with rfl | hx
      · -- the other entries have other keys
        have hys : ys.map (fun y => if key y == key x then g y else y) = ys := by
          refine (List.map_congr_left ?_).trans (List.map_id ys)
          intro z hz
          have : key z ≠ key x := fun he => hn.1 (List.mem_map.2 ⟨z, hz, he⟩)
          simp [this]
        simp only [List.map_cons, hys, beq_self_eq_true, if_true, List.sum_cons]
        omega
      · have hne : key y ≠ key x := fun he => hn.1 (List.mem_map.2 ⟨x, hx, he.symm⟩)
        have hrec := ih hn.2 hx
        simp only [List.map_cons, beq_iff_eq, hne, if_false, List.sum_cons]
        simp only [beq_iff_eq] at hrec
        omega

/-- Replacing the entry of a key, with lighter terms for the others too. -/
theorem sum_map_replace_le (hn : (xs.map key).Nodup) (hx : x ∈ xs) (g : A → A) {f f' : A → Nat}
    (hle : ∀ y, f y ≤ f' y) :
    ((xs.map fun y => if key y == key x then g y else y).map f).sum + f' x ≤
      (xs.map f').sum + f (g x) := by
  have hreplace := sum_map_replace hn hx g f
  have hlight := sum_map_filter_ne hn hx f
  have hheavy := sum_map_filter_ne hn hx f'
  have hothers : ((xs.filter fun y => key y != key x).map f).sum ≤
      ((xs.filter fun y => key y != key x).map f').sum := List.sum_le_sum fun y _ => hle y
  omega

/-- Finding a key after the entries of a key were replaced. -/
theorem find?_map_replace {k : Nat} {g : A → A} (hg : ∀ y, key y = k → key (g y) = k) (q : Nat) :
    (xs.map fun y => if key y == k then g y else y).find? (fun y => key y == q) =
      if q = k then (xs.find? fun y => key y == q).map g else xs.find? fun y => key y == q := by
  induction xs with
  | nil => simp
  | cons y ys ih =>
      by_cases hy : key y = k
      · by_cases hq : q = k
        · simp [hy, hq, hg]
        · have hne : k ≠ q := fun h => hq h.symm
          simpa [hy, hq, hg, hne] using ih
      · by_cases hyq : key y = q
        · have hq : q ≠ k := fun h => hy (hyq.trans h)
          simp [hyq, hq]
        · simpa [hy, hyq] using ih

/-- Finding a key after the entries of a key were taken away. -/
theorem find?_filter_ne (k q : Nat) :
    (xs.filter fun y => key y != k).find? (fun y => key y == q) =
      if q = k then none else xs.find? fun y => key y == q := by
  induction xs with
  | nil => simp
  | cons y ys ih =>
      by_cases hy : key y = k
      · by_cases hq : q = k
        · simp_all
        · have hne : k ≠ q := fun h => hq h.symm
          simpa [hy, hq, hne] using ih
      · by_cases hyq : key y = q
        · have hq : q ≠ k := fun h => hy (hyq.trans h)
          simp [hyq, hq]
        · simpa [hy, hyq] using ih

/-- Looking up a key after the entries of another were taken away. -/
theorem lookup_filter_ne {B V : Type} [BEq B] [LawfulBEq B] (k k' : B) (l : List (B × V)) :
    (l.filter (·.1 != k)).lookup k' = if k' == k then none else l.lookup k' := by
  induction l with
  | nil => simp
  | cons entry rest ih =>
      obtain ⟨j, v⟩ := entry
      cases hj : j == k with
      | true =>
          rw [beq_iff_eq] at hj
          subst hj
          cases hk : k' == j <;> simpa [List.lookup_cons, hk] using ih
      | false =>
          cases hkj : k' == j with
          | true =>
              rw [beq_iff_eq] at hkj
              subst hkj
              simp [hj, bne]
          | false => simpa [hj, bne, List.lookup_cons, hkj] using ih

end Keyed

/-! ### Invocations of a call -/

namespace TaskCall

variable {c : TaskCall} {place : Nat} {i : Invocation} {f : Invocation → Invocation}

theorem place_of_invocation? (h : c.invocation? place = some i) : i.place = place := by
  simpa using List.find?_some h

theorem mem_live_of_invocation? (h : c.invocation? place = some i) : i ∈ c.live :=
  List.mem_of_find?_eq_some h

/-- When no two invocations share a place, a live invocation is the one found for its place. -/
theorem invocation?_of_mem (hn : (c.live.map (·.place)).Nodup) (h : i ∈ c.live) :
    c.invocation? i.place = some i := by
  cases hf : c.invocation? i.place with
  | none =>
      have hno := List.find?_eq_none.1 hf i h
      simp at hno
  | some j =>
      have hj := mem_live_of_invocation? hf
      rw [List.inj_on_of_nodup_map hn hj h (place_of_invocation? hf)]

/-- A place has no invocation exactly when no live invocation has it. -/
theorem invocation?_eq_none : c.invocation? place = none ↔ place ∉ c.live.map (·.place) := by
  simp [invocation?]

@[simp] theorem id_adjust : (c.adjust place f).id = c.id := rfl

@[simp] theorem id_setStage (stage : Stage) : (c.setStage place stage).id = c.id := rfl

@[simp] theorem id_without : (c.without place).id = c.id := rfl

theorem invocation?_adjust (hf : ∀ j, (f j).place = j.place) (q : Nat) :
    (c.adjust place f).invocation? q =
      if q = place then (c.invocation? q).map f else c.invocation? q :=
  find?_map_replace (fun j hj => (hf j).trans hj) q

theorem invocation?_setStage (stage : Stage) (q : Nat) :
    (c.setStage place stage).invocation? q =
      if q = place then (c.invocation? q).map (fun i => { i with stage }) else c.invocation? q :=
  invocation?_adjust (f := fun i => { i with stage }) (fun _ => rfl) q

theorem invocation?_without (q : Nat) :
    (c.without place).invocation? q = if q = place then none else c.invocation? q :=
  find?_filter_ne place q

/-- What a change leaves alone is the same for all live invocations. -/
theorem map_live_adjust {B : Type} {g : Invocation → B} (hf : ∀ j, g (f j) = g j) :
    (c.adjust place f).live.map g = c.live.map g := by
  simp only [adjust, List.map_map]
  refine List.map_congr_left ?_
  intro j _
  by_cases hj : j.place = place
  · simp [hj, hf]
  · simp [hj]

theorem map_place_without :
    (c.without place).live.map (·.place) = (c.live.map (·.place)).filter (· != place) := by
  simp only [without, List.filter_map]
  rfl

/-- When no two invocations share a place, changing one leaves the others. -/
theorem mem_live_adjust (hn : (c.live.map (·.place)).Nodup) (h : c.invocation? place = some i)
    {j : Invocation} :
    j ∈ (c.adjust place f).live ↔ (j ∈ c.live ∧ j.place ≠ place) ∨ j = f i := by
  have hp := place_of_invocation? h
  simp only [adjust, List.mem_map]
  constructor
  · rintro ⟨j', hj', rfl⟩
    by_cases hp' : j'.place = place
    · have hsame := invocation?_of_mem hn hj'
      rw [hp', h] at hsame
      simp [hp', Option.some.inj hsame]
    · simp [hp', hj']
  · rintro (⟨hj, hne⟩ | rfl)
    · exact ⟨j, hj, by simp [hne]⟩
    · exact ⟨i, mem_live_of_invocation? h, by simp [hp]⟩

theorem mem_live_without {j : Invocation} :
    j ∈ (c.without place).live ↔ j ∈ c.live ∧ j.place ≠ place := by
  simp [without]

/-- **The sum of a weight over the live invocations of a call.** -/
def total (c : TaskCall) (weight : Invocation → Nat) : Nat := (c.live.map weight).sum

/-- Taking an invocation away takes away its weight. -/
theorem total_without (hn : (c.live.map (·.place)).Nodup) (h : c.invocation? place = some i)
    (weight : Invocation → Nat) : (c.without place).total weight + weight i = c.total weight := by
  rw [← place_of_invocation? h]
  exact sum_map_filter_ne hn (mem_live_of_invocation? h) weight

/-- Changing an invocation gives it its new weight. -/
theorem total_adjust (hn : (c.live.map (·.place)).Nodup) (h : c.invocation? place = some i)
    (weight : Invocation → Nat) :
    (c.adjust place f).total weight + weight i = c.total weight + weight (f i) := by
  rw [← place_of_invocation? h]
  exact sum_map_replace hn (mem_live_of_invocation? h) f weight

/-- Live invocations of a bounded weight. -/
theorem total_le_length_mul (weight : Invocation → Nat) {n : Nat}
    (h : ∀ i ∈ c.live, weight i ≤ n) : c.total weight ≤ c.live.length * n := by
  have hsum := List.sum_le_card_nsmul (c.live.map weight) n fun m hm => by
    obtain ⟨i, hi, rfl⟩ := List.mem_map.1 hm
    exact h i hi
  simpa [total] using hsum

end TaskCall

namespace World

variable {w : World} {c d : TaskCall} {id : Nat}

/-! ### Calls -/

theorem id_of_call? (h : w.call? id = some c) : c.id = id := by
  simpa using List.find?_some h

theorem mem_calls_of_call? (h : w.call? id = some c) : c ∈ w.calls :=
  List.mem_of_find?_eq_some h

/-- When no two calls share a number, a call of the world is the one found for its number. -/
theorem call?_of_mem (hn : (w.calls.map (·.id)).Nodup) (h : c ∈ w.calls) :
    w.call? c.id = some c := by
  cases hf : w.call? c.id with
  | none =>
      have hno := List.find?_eq_none.1 hf c h
      simp at hno
  | some d =>
      rw [List.inj_on_of_nodup_map hn (mem_calls_of_call? hf) h (id_of_call? hf)]

/-- There is no call of a number exactly when no call has it. -/
theorem call?_eq_none : w.call? id = none ↔ id ∉ w.calls.map (·.id) := by
  simp [call?]

/-- Reading a call after one was written. -/
theorem call?_putCall (w : World) (c : TaskCall) (id : Nat) :
    (w.putCall c).call? id = if id = c.id then (w.call? id).map (fun _ => c) else w.call? id :=
  find?_map_replace (fun _ _ => rfl) id

theorem call?_putCall_self (h : w.call? c.id = some d) : (w.putCall c).call? c.id = some c := by
  simp [call?_putCall, h]

theorem call?_putCall_of_ne (h : id ≠ c.id) : (w.putCall c).call? id = w.call? id := by
  simp [call?_putCall, h]

/-- Reading a call after one was dropped. -/
theorem call?_dropCall (w : World) (k id : Nat) :
    (w.dropCall k).call? id = if id = k then none else w.call? id :=
  find?_filter_ne k id

theorem map_id_putCall (w : World) (c : TaskCall) :
    (w.putCall c).calls.map (·.id) = w.calls.map (·.id) := by
  simp only [putCall, List.map_map]
  refine List.map_congr_left ?_
  intro d _
  by_cases hd : d.id = c.id <;> simp [hd]

/-- Of two versions of a call that are written the second stays. -/
theorem putCall_putCall (w : World) (h : c.id = d.id) : (w.putCall c).putCall d = w.putCall d := by
  simp only [putCall, List.map_map]
  congr 1
  refine List.map_congr_left ?_
  intro e _
  by_cases he : e.id = d.id
  · simp [he, h]
  · simp [he, h]

/-- A call that is dropped need not be written before. -/
theorem dropCall_putCall (w : World) (c : TaskCall) :
    (w.putCall c).dropCall c.id = w.dropCall c.id := by
  simp only [putCall, dropCall]
  congr 1
  induction w.calls with
  | nil => rfl
  | cons d rest ih =>
      by_cases hd : d.id = c.id
      · simpa [hd] using ih
      · simpa [hd] using ih

@[simp] theorem executor_putCall (w : World) (c : TaskCall) :
    (w.putCall c).executor = w.executor := rfl

@[simp] theorem now_putCall (w : World) (c : TaskCall) : (w.putCall c).now = w.now := rfl

@[simp] theorem pool_putCall (w : World) (c : TaskCall) (key : Option String) :
    (w.putCall c).pool key = w.pool key := rfl

/-! ### Pools -/

/-- Reading a pool after one was written. -/
theorem pool_putPool (w : World) (key k : Option String) (p : Pool) :
    (w.putPool key p).pool k = if k = key then p else w.pool k := by
  by_cases hk : k = key
  · simp [pool, putPool, hk]
  · have hb : (k == key) = false := by simpa using hk
    simp [pool, putPool, List.lookup_cons, hk, lookup_filter_ne, hb]

/-! ### Totals -/

/-- **The sum of a weight over all live invocations.** -/
def total (w : World) (weight : Invocation → Nat) : Nat :=
  (w.calls.map fun c => c.total weight).sum

/-- Changing a call changes a sum over all calls by the difference of its own terms. -/
theorem sum_map_putCall (hn : (w.calls.map (·.id)).Nodup) (h : w.call? c.id = some d)
    (f : TaskCall → Nat) :
    ((w.putCall c).calls.map f).sum + f d = (w.calls.map f).sum + f c := by
  have hid := id_of_call? h
  simp only [putCall, ← hid]
  exact sum_map_replace hn (mem_calls_of_call? h) (fun _ => c) f

/-- Dropping a call takes its term out of a sum over all calls. -/
theorem sum_map_dropCall (hn : (w.calls.map (·.id)).Nodup) (h : w.call? id = some d)
    (f : TaskCall → Nat) :
    ((w.dropCall id).calls.map f).sum + f d = (w.calls.map f).sum := by
  have hid := id_of_call? h
  simp only [dropCall, ← hid]
  exact sum_map_filter_ne hn (mem_calls_of_call? h) f

/-- **Changing a call changes a total by the difference of the call's own totals.** -/
theorem total_putCall (hn : (w.calls.map (·.id)).Nodup) (h : w.call? c.id = some d)
    (weight : Invocation → Nat) :
    (w.putCall c).total weight + d.total weight = w.total weight + c.total weight :=
  sum_map_putCall hn h fun c => c.total weight

theorem total_dropCall (hn : (w.calls.map (·.id)).Nodup) (h : w.call? id = some d)
    (weight : Invocation → Nat) :
    (w.dropCall id).total weight + d.total weight = w.total weight :=
  sum_map_dropCall hn h fun c => c.total weight

/-- A heavier weight has a heavier total. -/
theorem total_mono {f g : Invocation → Nat} (h : ∀ i, f i ≤ g i) : w.total f ≤ w.total g := by
  refine List.sum_le_sum fun c _ => ?_
  exact List.sum_le_sum fun i _ => h i

/-! ### Actors -/

/-- The invocation that an actor stands for. -/
def unit? (w : World) : Actor → Option Invocation
  | .caller _ => none
  | .invocation id place => (w.call? id).bind (·.invocation? place)

/-- Only the calls of a world decide whom an actor stands for. -/
theorem unit?_congr {v : World} (h : v.calls = w.calls) (a : Actor) : v.unit? a = w.unit? a := by
  cases a <;> simp [unit?, call?, h]

/-- Whom an actor stands for after a call was written. -/
theorem unit?_putCall (h : w.call? c.id = some d) (a : Actor) : (w.putCall c).unit? a =
    if a.call = c.id then
      match a with
      | .caller _ => none
      | .invocation _ place => c.invocation? place
    else w.unit? a := by
  cases a with
  | caller id => simp [unit?]
  | invocation id place =>
      by_cases hid : id = c.id
      · simp [unit?, Actor.call, hid, call?_putCall, h]
      · simp [unit?, Actor.call, hid, call?_putCall]

/-! ### Live invocations -/

/-- The pool that an invocation takes its permit from. -/
def keyOf (w : World) (i : Invocation) : Option String := w.executor.poolOf i.agent.partition

/-- The actor that stands for an invocation of a call. -/
def actorOf (c : TaskCall) (i : Invocation) : Actor := .invocation c.id i.place

/-- A call of the world with one of its live invocations. -/
structure Has (w : World) (c : TaskCall) (i : Invocation) : Prop where
  call : w.call? c.id = some c
  unit : c.invocation? i.place = some i

namespace Has

variable {w : World} {c : TaskCall} {i : Invocation}

theorem mem_live (h : w.Has c i) : i ∈ c.live := TaskCall.mem_live_of_invocation? h.unit

theorem mem_calls (h : w.Has c i) : c ∈ w.calls := mem_calls_of_call? h.call

/-- A live invocation is the one that its actor stands for. -/
theorem unit? (h : w.Has c i) : w.unit? (actorOf c i) = some i := by
  simp [World.unit?, actorOf, h.call, h.unit]

/-- Whom an actor stands for is live in its call. -/
theorem of_unit? {a : Actor} (h : w.unit? a = some i) : ∃ c, w.Has c i ∧ a = actorOf c i := by
  cases a with
  | caller id => simp [World.unit?] at h
  | invocation id place =>
      obtain ⟨c, hc, hi⟩ := Option.bind_eq_some_iff.1 h
      have hid := id_of_call? hc
      have hp := TaskCall.place_of_invocation? hi
      exact ⟨c, ⟨hid ▸ hc, hp ▸ hi⟩, by rw [actorOf, hid, hp]⟩

/-- The invocation as it is after it was changed in the world. -/
theorem adjust {f : Invocation → Invocation} (hf : ∀ j, (f j).place = j.place) (h : w.Has c i) :
    (w.putCall (c.adjust i.place f)).Has (c.adjust i.place f) (f i) where
  call := call?_putCall_self (c := c.adjust i.place f) h.call
  unit := by
    rw [hf, TaskCall.invocation?_adjust hf]
    simp [h.unit]

/-- The invocation as it is after it came to a new stage. -/
theorem setStage (h : w.Has c i) (stage : Stage) :
    (w.putCall (c.setStage i.place stage)).Has (c.setStage i.place stage) { i with stage } :=
  h.adjust (f := fun i => { i with stage }) fun _ => rfl

/-- Whom an actor stands for after a version of the call was written that differs at one place. -/
theorem unit?_putCall {d : TaskCall} (hid : d.id = c.id)
    (hother : ∀ q, q ≠ i.place → d.invocation? q = c.invocation? q) (h : w.Has c i) (a : Actor) :
    (w.putCall d).unit? a = if a = actorOf c i then d.invocation? i.place else w.unit? a := by
  rw [World.unit?_putCall (c := d) (hid ▸ h.call)]
  cases a with
  | caller id => split <;> rfl
  | invocation id q =>
      by_cases hcall : id = c.id
      · subst hcall
        by_cases hq : q = i.place
        · simp [Actor.call, actorOf, hid, hq]
        · simp [Actor.call, actorOf, World.unit?, h.call, hid, hother q hq, hq]
      · simp [Actor.call, actorOf, World.unit?, hid, hcall]

/-- Whom an actor stands for after an invocation was changed. -/
theorem unit?_adjust {f : Invocation → Invocation} (hf : ∀ j, (f j).place = j.place)
    (h : w.Has c i) (a : Actor) : (w.putCall (c.adjust i.place f)).unit? a =
      if a = actorOf c i then some (f i) else w.unit? a := by
  have hother : ∀ q, q ≠ i.place → (c.adjust i.place f).invocation? q = c.invocation? q :=
    fun q hq => by rw [TaskCall.invocation?_adjust hf, if_neg hq]
  rw [h.unit?_putCall (TaskCall.id_adjust ..) hother, TaskCall.invocation?_adjust hf, if_pos rfl,
    h.unit, Option.map_some]

/-- Whom an actor stands for after an invocation came to a new stage. -/
theorem unit?_setStage (h : w.Has c i) (stage : Stage) (a : Actor) :
    (w.putCall (c.setStage i.place stage)).unit? a =
      if a = actorOf c i then some { i with stage } else w.unit? a :=
  h.unit?_adjust (f := fun i => { i with stage }) (fun _ => rfl) a

/-- Whom an actor stands for after an invocation was taken away. -/
theorem unit?_without (h : w.Has c i) (a : Actor) :
    (w.putCall (c.without i.place)).unit? a = if a = actorOf c i then none else w.unit? a := by
  have hother : ∀ q, q ≠ i.place → (c.without i.place).invocation? q = c.invocation? q :=
    fun q hq => by rw [TaskCall.invocation?_without, if_neg hq]
  rw [h.unit?_putCall (TaskCall.id_without ..) hother, TaskCall.invocation?_without, if_pos rfl]

/-- Two live invocations of one actor are the same. -/
theorem eq_of_actorOf {d : TaskCall} {j : Invocation} (h : w.Has c i) (hj : w.Has d j)
    (he : actorOf d j = actorOf c i) : d = c ∧ j = i := by
  simp only [actorOf, Actor.invocation.injEq] at he
  have hcd : some d = some c := by rw [← hj.call, ← h.call, he.1]
  obtain rfl := Option.some.inj hcd
  have hij : some j = some i := by rw [← hj.unit, ← h.unit, he.2]
  exact ⟨rfl, Option.some.inj hij⟩

/-- An invocation stays live when another one comes to a new stage. -/
theorem setStage_other {d : TaskCall} {j : Invocation} (h : w.Has c i) (hj : w.Has d j)
    (hne : actorOf d j ≠ actorOf c i) (stage : Stage) :
    ∃ c₁, (c₁ = c ∨ d = c ∧ c₁ = c.setStage j.place stage) ∧
      (w.putCall (d.setStage j.place stage)).Has c₁ i := by
  by_cases hid : d.id = c.id
  · -- both are invocations of one call, which is then the one that was written
    have hcd : some d = some c := by rw [← hj.call, ← h.call, hid]
    obtain rfl := Option.some.inj hcd
    have hp : i.place ≠ j.place := fun hp => hne (by rw [actorOf, actorOf, hp])
    refine ⟨d.setStage j.place stage, .inr ⟨rfl, rfl⟩,
      call?_putCall_self (c := d.setStage j.place stage) h.call, ?_⟩
    rw [TaskCall.invocation?_setStage, if_neg hp]
    exact h.unit
  · refine ⟨c, .inl rfl, ?_, h.unit⟩
    rw [call?_putCall_of_ne (show c.id ≠ (d.setStage j.place stage).id from fun he => hid he.symm)]
    exact h.call

end Has

end World

end AgentSwarm
