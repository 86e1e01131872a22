/-
**How many requests a quota admits.**

Whoever asks, and whenever, a quota is a single time: that at which the next request is due.  Every
request that is admitted moves it on by the distance of even requests, and starts it anew when it
lies in the past.  So after some requests in a window it is at least as many distances behind the
beginning of the window, and a request is admitted only if it is not too far ahead of it.

Main definitions:

* `AgentSwarm.Quota.Admits` — requests that are admitted one after another;
* `AgentSwarm.countIn` — how many times lie in a window;
* `AgentSwarm.QuotaQueue.Run` — steps of a quota with its callers, one after another.

Main results:

* `AgentSwarm.Quota.Admits.due_ge` — what the requests of a window do to the due time;
* `AgentSwarm.Quota.Admits.countIn_le` — **how many requests a window holds at most**;
* `AgentSwarm.QuotaQueue.Run.admits` — in every run requests are admitted one after another.
-/

import AgentSwarm.Quota.Queue
import Mathlib.Algebra.Order.Ring.Nat
import Mathlib.Data.List.Basic

set_option relaxedAutoImplicit false
set_option autoImplicit false

namespace AgentSwarm

/-! ### Windows -/

/-- How many times lie in a window that begins at a time and has a length. -/
def countIn (start length : Nat) (times : List Nat) : Nat :=
  times.countP fun t => start ≤ t ∧ t ≤ start + length

@[simp] theorem countIn_nil (start length : Nat) : countIn start length [] = 0 := rfl

/-- One time more. -/
theorem countIn_concat (start length : Nat) (times : List Nat) (t : Nat) :
    countIn start length (times ++ [t]) =
      countIn start length times + if start ≤ t ∧ t ≤ start + length then 1 else 0 := by
  simp only [countIn, List.countP_append, List.countP_singleton, decide_eq_true_eq]

/-! ### Requests one after another -/

namespace Quota

/-- Requests that are admitted one after another at some times, from one due time to another. -/
inductive Admits (q : Quota) (first : Option Nat) : List Nat → Option Nat → Prop
  | refl : Admits q first [] first
  | step {times : List Nat} {due : Option Nat} {now next : Nat} : Admits q first times due →
      q.check due now = .ok next → Admits q first (times ++ [now]) (some next)

namespace Admits

variable {q : Quota} {first second last : Option Nat} {times more : List Nat} {start length : Nat}

/-- A single request. -/
theorem single {now next : Nat} (h : q.check first now = .ok next) :
    Admits q first [now] (some next) :=
  show Admits q first ([] ++ [now]) (some next) from .step .refl h

/-- More requests after some. -/
theorem trans (h : Admits q first times second) (h' : Admits q second more last) :
    Admits q first (times ++ more) last := by
  induction h' with
  | refl => rwa [List.append_nil]
  | step _ hcheck ih =>
      rw [← List.append_assoc]
      exact .step ih hcheck

/-- **The requests of a window move the due time on**: it is as many distances behind the beginning
of the window as requests were admitted since. -/
theorem due_ge (h : Admits q first times last) (hlater : ∀ t ∈ times, t ≤ start + length)
    (hsome : 0 < countIn start length times) :
    ∃ due, last = some due ∧ start + countIn start length times * q.interval ≤ due := by
  induction h with
  | refl => simp at hsome
  | @step times due now next _ hcheck ih =>
      obtain ⟨_, rfl⟩ := check_eq_ok_iff.1 hcheck
      refine ⟨_, rfl, ?_⟩
      have hbefore := ih fun t ht => hlater t (List.mem_append_left _ ht)
      have hnow : now ≤ start + length := hlater now (by simp)
      rw [countIn_concat] at hsome ⊢
      rcases Nat.eq_zero_or_pos (countIn start length times) with hnone | hpos
      · -- the first request of the window comes at or after its beginning
        rw [hnone] at hsome ⊢
        have hstart : start ≤ now := by
          by_contra hlt
          simp [hlt] at hsome
        simp only [hstart, hnow, and_self, if_true, Nat.zero_add, Nat.one_mul]
        omega
      · obtain ⟨d, rfl, hd⟩ := hbefore hpos
        simp only [Option.getD_some]
        have hone : (if start ≤ now ∧ now ≤ start + length then 1 else 0) ≤ 1 := by split <;> omega
        have hmul := Nat.mul_le_mul_right q.interval
          (Nat.add_le_add_left hone (countIn start length times))
        have hsucc := Nat.succ_mul (countIn start length times) q.interval
        rw [Nat.succ_eq_add_one] at hsucc
        omega

/-- **A window holds at most a burst and as many requests as distances fit into it**, when the quota
lets a request be `burst` distances ahead. -/
theorem countIn_le (burst : Nat) (h : Admits q none times last)
    (hordered : times.Pairwise (· ≤ ·)) (hinterval : 0 < q.interval)
    (hslack : q.slack = q.interval * burst) (start length : Nat) :
    countIn start length times ≤ burst + 1 + length / q.interval := by
  induction h with
  | refl => simp
  | @step times due now next hbefore hcheck ih =>
      obtain ⟨hordered, _, hlast⟩ := List.pairwise_append.1 hordered
      have hcount := ih hordered
      rw [countIn_concat]
      split
      next hin =>
          rcases Nat.eq_zero_or_pos (countIn start length times) with hnone | hpos
          · have := Nat.zero_le (length / q.interval)
            omega
          · -- the due time is known from the requests before, and not too far ahead
            have hlater : ∀ t ∈ times, t ≤ start + length :=
              fun t ht => (hlast t ht now (by simp)).trans hin.2
            obtain ⟨d, rfl, hd⟩ := hbefore.due_ge hlater hpos
            have hopen := (check_eq_ok_iff.1 hcheck).1
            simp only [opensAt, Option.getD_some, hslack] at hopen
            have hfit : countIn start length times * q.interval ≤ burst * q.interval + length := by
              rw [Nat.mul_comm q.interval burst] at hopen
              omega
            have hdiv := Nat.div_le_div_right (c := q.interval) hfit
            rw [Nat.mul_div_cancel _ hinterval, Nat.add_comm (burst * q.interval),
              Nat.add_mul_div_right _ _ hinterval] at hdiv
            omega
      next => omega

end Admits

/-- The requests of a minute and the distance of even requests. -/
theorem countIn_le_of_perMinute {n : Nat} {times : List Nat} {last : Option Nat} (hn : 0 < n)
    (hmany : n ≤ 60000000000) (h : (perMinute n).Admits none times last)
    (hordered : times.Pairwise (· ≤ ·)) (start length : Nat) :
    countIn start length times ≤ n + length / (60000000000 / n) := by
  have hinterval : 0 < (perMinute n).interval := Nat.div_pos hmany hn
  have hcount := h.countIn_le (n - 1) hordered hinterval rfl start length
  rwa [Nat.sub_add_cancel hn] at hcount

end Quota

/-! ### A quota with its callers -/

namespace QuotaQueue

/-- Steps of a quota one after another, with the times at which callers are admitted. -/
inductive Run (s : QuotaQueue) : List Nat → QuotaQueue → Prop
  | refl : Run s [] s
  | step {times more : List Nat} {s₁ s₂ : QuotaQueue} {act : Action} : Run s times s₁ →
      s₁.step? act = some (s₂, more) → Run s (times ++ more) s₂

variable {s s' : QuotaQueue} {times : List Nat}

/-- Whoever asks is admitted now or not at all, and time stays. -/
theorem ask_admits (s : QuotaQueue) (caller : Nat) :
    s.quota.Admits s.due (s.ask caller).2 (s.ask caller).1.due ∧
      (∀ t ∈ (s.ask caller).2, t = s.now) ∧ (s.ask caller).2.length ≤ 1 ∧
      (s.ask caller).1.quota = s.quota ∧ (s.ask caller).1.now = s.now := by
  simp only [ask]
  cases hcheck : s.quota.check s.due s.now with
  | ok due => exact ⟨.single hcheck, by simp, by simp, rfl, rfl⟩
  | error retry => exact ⟨.refl, by simp, by simp, rfl, rfl⟩

/-- **What one step does**: at most one caller is admitted, now, and time does not go back. -/
theorem step?_admits {act : Action} (h : s.step? act = some (s', times)) :
    s.quota.Admits s.due times s'.due ∧ (∀ t ∈ times, t = s.now) ∧ times.length ≤ 1 ∧
      s'.quota = s.quota ∧ s.now ≤ s'.now := by
  cases act with
  | pass time =>
      simp only [step?, Option.ite_none_right_eq_some, Option.some.injEq, Prod.mk.injEq] at h
      obtain ⟨hle, rfl, rfl⟩ := h
      exact ⟨.refl, by simp, by simp, rfl, hle⟩
  | come caller =>
      obtain ⟨hadmits, htimes, hlength, hquota, hnow⟩ := s.ask_admits caller
      rw [Option.some.inj h] at hadmits htimes hlength hquota hnow
      exact ⟨hadmits, htimes, hlength, hquota, hnow.ge⟩
  | wake sleeper =>
      simp only [step?, Option.ite_none_right_eq_some, Option.some.injEq] at h
      obtain ⟨_, h⟩ := h
      obtain ⟨hadmits, htimes, hlength, hquota, hnow⟩ :=
        ask_admits { s with sleeping := s.sleeping.erase sleeper } sleeper.caller
      rw [h] at hadmits htimes hlength hquota hnow
      exact ⟨hadmits, htimes, hlength, hquota, hnow.ge⟩

/-- **In every run requests are admitted one after another**, and time does not go back. -/
theorem Run.admits (h : Run s times s') : s.quota.Admits s.due times s'.due ∧
    times.Pairwise (· ≤ ·) ∧ (∀ t ∈ times, t ≤ s'.now) ∧ s'.quota = s.quota := by
  induction h with
  | refl => exact ⟨.refl, .nil, by simp, rfl⟩
  | step _ hstep ih =>
      obtain ⟨hadmits, hordered, hpast, hquota⟩ := ih
      obtain ⟨hadmits', htimes, hlength, hquota', hnow⟩ := step?_admits hstep
      rw [hquota] at hadmits'
      refine ⟨hadmits.trans hadmits', List.pairwise_append.2 ⟨hordered, ?_, ?_⟩, ?_,
        hquota'.trans hquota⟩
      · exact List.pairwise_of_forall_mem_list fun a ha b hb =>
          ((htimes a ha).trans (htimes b hb).symm).le
      · intro a ha b hb
        rw [htimes b hb]
        exact hpast a ha
      · intro t ht
        rcases List.mem_append.1 ht with ht | ht
        · exact (hpast t ht).trans hnow
        · rw [htimes t ht]
          exact hnow

end QuotaQueue

end AgentSwarm
