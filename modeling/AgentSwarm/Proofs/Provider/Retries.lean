/-
**How often providers are asked.**

A request for an alias asks one provider up to a number of times, and goes on only as long as the
answers are errors that may go away.  Between two tries there is a pause, which doubles; there is
none before the first try, after the last one, or before the fallback.  The fallback is asked at most
once, and what it answers is the answer.

The answers come from a state of the world that every question changes, so whatever providers may
answer one after the other is covered: a sequence of answers is a state that counts the questions.

Main definitions:

* `AgentSwarm.Transient` — the answers that are worth another try;
* `AgentSwarm.stateAfter`, `AgentSwarm.replyAt` — a provider that is asked again and again;
* `AgentSwarm.Registry.doubled` — the pauses;
* `AgentSwarm.Registry.Handled` — what may come of a request.

Main results:

* `AgentSwarm.Course.run_tries_transient` — as long as the answers are worth it, tries go on;
* `AgentSwarm.Registry.handled_iff` — **what is done for a request**.
-/

import AgentSwarm.Provider.Registry
import Mathlib.Logic.Function.Iterate

set_option relaxedAutoImplicit false
set_option autoImplicit false

namespace AgentSwarm

/-! ### Answers one after another -/

/-- The answers that are worth another try: the network failed, or the provider did. -/
inductive Transient : ProviderAnswer → Prop
  | network (text : String) : Transient (.error (.network text))
  | provider (text : String) : Transient (.error (.provider text))

theorem mayRetry_iff {a : ProviderAnswer} : mayRetry a = true ↔ Transient a := by
  constructor
  · intro h
    cases a with
    | ok | panic => cases h
    | error e =>
        cases e with
        | network text => exact .network text
        | provider text => exact .provider text
        | authentication | rateLimit | modelNotFound | invalidInput => cases h
  · rintro (text | text) <;> rfl

section

variable {P S : Type}

/-- The state after a provider was asked `n` times in a row. -/
def stateAfter (answer : P → S → ProviderAnswer × S) (p : P) (s : S) (n : ℕ) : S :=
  (fun s => (answer p s).2)^[n] s

/-- What a provider answers when it was asked `n` times before. -/
def replyAt (answer : P → S → ProviderAnswer × S) (p : P) (s : S) (n : ℕ) : ProviderAnswer :=
  (answer p (stateAfter answer p s n)).1

/-- The first tries: the provider is asked `n` times, and every time there is a pause behind. -/
def retried (p : P) (pause : ℕ → Duration) (n : ℕ) : List (Move P) :=
  (List.range n).flatMap fun i => [.asked p, .waited (pause i)]

theorem answer_stateAfter (answer : P → S → ProviderAnswer × S) (p : P) (s : S) (n : ℕ) :
    answer p (stateAfter answer p s n) = (replyAt answer p s n, stateAfter answer p s (n + 1)) := by
  rw [replyAt, stateAfter, stateAfter, Function.iterate_succ_apply']

/-- Either all of the first answers are worth another try, or there is a first one that is not. -/
theorem transient_or_first (answer : P → S → ProviderAnswer × S) (p : P) (s : S) (n : ℕ) :
    (∀ i < n, Transient (replyAt answer p s i)) ∨
      ∃ j < n, (∀ i < j, Transient (replyAt answer p s i)) ∧ ¬ Transient (replyAt answer p s j) := by
  induction n with
  | zero => exact .inl fun i hi => absurd hi (Nat.not_lt_zero i)
  | succ n ih =>
      rcases ih with hall | ⟨j, hj, hbefore, hfinal⟩
      · by_cases hn : Transient (replyAt answer p s n)
        · refine .inl fun i hi => ?_
          rcases Nat.lt_succ_iff_lt_or_eq.1 hi with hi | rfl
          · exact hall i hi
          · exact hn
        · exact .inr ⟨n, Nat.lt_succ_self n, hall, hn⟩
      · exact .inr ⟨j, Nat.lt_succ_of_lt hj, hbefore, hfinal⟩

theorem retried_succ (p : P) (pause : ℕ → Duration) (n : ℕ) :
    retried p pause (n + 1) = retried p pause n ++ [.asked p, .waited (pause n)] := by
  simp [retried, List.range_succ]

/-! ### Tries -/

namespace Course

variable {answer : P → S → ProviderAnswer × S} {p : P} {s : S} {pause : ℕ → Duration}
  {last : ProviderAnswer → Course P} {n left : ℕ}

/-- **As long as the answers are worth it, tries go on**: after `n` of them the course is that of the
tries which are left. -/
theorem run_tries_transient (h : ∀ i < n, Transient (replyAt answer p s i)) :
    (tries p pause last (n + left) 0).run answer s =
      let ran := (tries p pause last left n).run answer (stateAfter answer p s n)
      { ran with moves := retried p pause n ++ ran.moves } := by
  induction n generalizing left with
  | zero => simp [retried, stateAfter]
  | succ n ih =>
      -- the tries that are left after `n` ask once more, wait, and go on with one less
      have hnext := mayRetry_iff.2 (h n (Nat.lt_succ_self n))
      rw [Nat.add_right_comm, Nat.add_assoc,
        ih fun i hi => h i (Nat.lt_succ_of_lt hi), retried_succ]
      simp [tries, run, answer_stateAfter, hnext]

/-- Tries end with the first answer that is not worth another one. -/
theorem run_tries_settled (h : ∀ i < n, Transient (replyAt answer p s i))
    (hfinal : ¬ Transient (replyAt answer p s n)) :
    (tries p pause last (n + left) 0).run answer s =
      ⟨replyAt answer p s n, retried p pause n ++ [.asked p], stateAfter answer p s (n + 1)⟩ := by
  have hstop : mayRetry (replyAt answer p s n) = false :=
    Bool.eq_false_iff.2 (mt mayRetry_iff.1 hfinal)
  rw [run_tries_transient h]
  cases left <;> simp [tries, run, answer_stateAfter, hstop]

/-- When all answers are worth another try but none is left, it goes on as `last` says. -/
theorem run_tries_exhausted (h : ∀ i ≤ n, Transient (replyAt answer p s i)) :
    (tries p pause last n 0).run answer s =
      let ran := (last (replyAt answer p s n)).run answer (stateAfter answer p s (n + 1))
      { ran with moves := retried p pause n ++ .asked p :: ran.moves } := by
  have hnext := mayRetry_iff.2 (h n (Nat.le_refl n))
  have hrun : (tries p pause last (n + 0) 0).run answer s = _ :=
    run_tries_transient fun i hi => h i (Nat.le_of_lt hi)
  rw [Nat.add_zero] at hrun
  rw [hrun]
  simp [tries, run, answer_stateAfter, hnext]

end Course

end

/-! ### Requests -/

namespace Registry

variable {P S : Type}

/-- The pause after a try, counted from zero: the delay is doubled each time.  The factor stays
within 32 bits, and the pause is no longer than a duration can be. -/
def doubled (delay : Duration) (i : ℕ) : Duration :=
  ⟨min (delay.nanos * min (Nat.pow 2 i) (Nat.pow 2 32 - 1)) Duration.longest.nanos⟩

theorem pause_eq (r : Registry P) : r.pause = doubled r.retryDelay := rfl

/-- How often a provider is asked at most. -/
def attempts (r : Registry P) : ℕ := max r.maxRetries 1

/-- The provider that can stand in for the one of a name: it is named as the fallback, it is
registered, and it has another name. -/
def StandsIn (r : Registry P) (name : String) (f : P) : Prop :=
  ∃ other, r.fallback = some other ∧ other ≠ name ∧ r.providers.lookup other = some f

/-- **What may come of a request** for an alias: the answer, what is done and in which order, and the
state that is left. -/
inductive Handled (r : Registry P) (aliasName : String) (answer : P → S → ProviderAnswer × S)
    (s : S) : Ran P S → Prop
  /-- Nobody is asked for an alias that is not known. -/
  | unknownAlias : r.route? aliasName = none →
      Handled r aliasName answer s
        ⟨.error (.modelNotFound ("Profile '" ++ aliasName ++ "' not found")), [], s⟩
  /-- Nobody is asked when the provider of the alias is not there. -/
  | unknownProvider {route : Route} : r.route? aliasName = some route →
      r.providers.lookup route.provider = none →
      Handled r aliasName answer s
        ⟨.error (.provider ("Provider '" ++ route.provider ++ "' not found")), [], s⟩
  /-- One of the tries has an answer that is not worth another: it is the answer. -/
  | settled {route : Route} {p : P} {n : ℕ} : r.route? aliasName = some route →
      r.providers.lookup route.provider = some p → n < r.attempts →
      (∀ i < n, Transient (replyAt answer p s i)) → ¬ Transient (replyAt answer p s n) →
      Handled r aliasName answer s ⟨replyAt answer p s n,
        retried p (doubled r.retryDelay) n ++ [.asked p], stateAfter answer p s (n + 1)⟩
  /-- All tries fail, and the fallback is asked once: whatever it says is the answer. -/
  | rescued {route : Route} {p f : P} : r.route? aliasName = some route →
      r.providers.lookup route.provider = some p →
      (∀ i < r.attempts, Transient (replyAt answer p s i)) → r.StandsIn route.provider f →
      Handled r aliasName answer s ⟨(answer f (stateAfter answer p s r.attempts)).1,
        retried p (doubled r.retryDelay) (r.attempts - 1) ++ [.asked p, .asked f],
        (answer f (stateAfter answer p s r.attempts)).2⟩
  /-- All tries fail and nobody stands in: the last error is the answer. -/
  | exhausted {route : Route} {p : P} : r.route? aliasName = some route →
      r.providers.lookup route.provider = some p →
      (∀ i < r.attempts, Transient (replyAt answer p s i)) →
      (∀ f, ¬ r.StandsIn route.provider f) →
      Handled r aliasName answer s ⟨replyAt answer p s (r.attempts - 1),
        retried p (doubled r.retryDelay) (r.attempts - 1) ++ [.asked p],
        stateAfter answer p s r.attempts⟩

variable {r : Registry P} {aliasName : String} {answer : P → S → ProviderAnswer × S} {s : S}
  {route : Route} {p : P}

theorem fallbackFor_eq_some_iff {name : String} {f : P} :
    r.fallbackFor name = some f ↔ r.StandsIn name f := by
  unfold fallbackFor StandsIn
  cases r.fallback with
  | none => simp
  | some other => by_cases h : other = name <;> simp [h]

theorem attempts_eq (r : Registry P) : r.attempts = r.maxRetries - 1 + 1 := by
  unfold attempts
  omega

/-- A provider that serves the alias is tried. -/
theorem run_course (hroute : r.route? aliasName = some route)
    (hp : r.providers.lookup route.provider = some p) :
    (r.course aliasName).run answer s =
      (Course.tries p (doubled r.retryDelay) (r.afterTries route.provider)
        (r.attempts - 1) 0).run answer s := by
  simp [course, hroute, hp, attempts_eq, pause_eq]

/-- What is done when one of the tries settles it. -/
theorem run_course_settled {n : ℕ} (hroute : r.route? aliasName = some route)
    (hp : r.providers.lookup route.provider = some p) (hn : n < r.attempts)
    (h : ∀ i < n, Transient (replyAt answer p s i)) (hfinal : ¬ Transient (replyAt answer p s n)) :
    (r.course aliasName).run answer s = ⟨replyAt answer p s n,
      retried p (doubled r.retryDelay) n ++ [.asked p], stateAfter answer p s (n + 1)⟩ := by
  obtain ⟨left, hleft⟩ := Nat.exists_eq_add_of_le (Nat.le_sub_one_of_lt hn)
  rw [run_course hroute hp, hleft, Course.run_tries_settled h hfinal]

/-- What is done when all tries have failed: the rest is left to who stands in. -/
theorem run_course_exhausted (hroute : r.route? aliasName = some route)
    (hp : r.providers.lookup route.provider = some p)
    (h : ∀ i < r.attempts, Transient (replyAt answer p s i)) :
    (r.course aliasName).run answer s =
      let ran := (r.afterTries route.provider (replyAt answer p s (r.attempts - 1))).run answer
        (stateAfter answer p s r.attempts)
      ⟨ran.answer, retried p (doubled r.retryDelay) (r.attempts - 1) ++ .asked p :: ran.moves,
        ran.state⟩ := by
  have hcount : r.attempts - 1 + 1 = r.attempts := by rw [attempts_eq, Nat.add_sub_cancel]
  have hall : ∀ i ≤ r.attempts - 1, Transient (replyAt answer p s i) :=
    fun i hi => h i (hcount ▸ Nat.lt_succ_of_le hi)
  rw [run_course hroute hp, Course.run_tries_exhausted hall, hcount]

/-- Something comes of every request. -/
theorem exists_handled (r : Registry P) (aliasName : String)
    (answer : P → S → ProviderAnswer × S) (s : S) : ∃ ran, r.Handled aliasName answer s ran := by
  cases hroute : r.route? aliasName with
  | none => exact ⟨_, .unknownAlias hroute⟩
  | some route =>
      cases hp : r.providers.lookup route.provider with
      | none => exact ⟨_, .unknownProvider hroute hp⟩
      | some p =>
          rcases transient_or_first answer p s r.attempts with hall | ⟨n, hn, hbefore, hfinal⟩
          · by_cases hstands : ∃ f, r.StandsIn route.provider f
            · obtain ⟨f, hf⟩ := hstands
              exact ⟨_, .rescued hroute hp hall hf⟩
            · exact ⟨_, .exhausted hroute hp hall fun f hf => hstands ⟨f, hf⟩⟩
          · exact ⟨_, .settled hroute hp hn hbefore hfinal⟩

/-- What comes of a request is what is done for it. -/
theorem Handled.eq_run {ran : Ran P S} (h : r.Handled aliasName answer s ran) :
    ran = (r.course aliasName).run answer s := by
  cases h with
  | unknownAlias hroute => simp [course, hroute]
  | unknownProvider hroute hp => simp [course, hroute, hp]
  | settled hroute hp hn hbefore hfinal =>
      exact (run_course_settled hroute hp hn hbefore hfinal).symm
  | rescued hroute hp hall hstands =>
      rw [run_course_exhausted hroute hp hall, afterTries, fallbackFor_eq_some_iff.2 hstands]
      rfl
  | exhausted hroute hp hall hnobody =>
      have hnone : ∀ f, r.fallbackFor _ ≠ some f := fun f hf =>
        hnobody f (fallbackFor_eq_some_iff.1 hf)
      rw [run_course_exhausted hroute hp hall, afterTries, Option.eq_none_iff_forall_ne_some.2 hnone]
      rfl

/-- **What is done for a request.**  Nobody is asked for an alias without a provider.  A provider is
asked until its answer is not worth another try, and then the fallback is not asked; or it is asked as
often as there are tries, and then the fallback once, if one stands in.  Nothing else may come of a
request. -/
theorem handled_iff (r : Registry P) (aliasName : String) (answer : P → S → ProviderAnswer × S)
    (s : S) (ran : Ran P S) :
    r.Handled aliasName answer s ran ↔ ran = (r.course aliasName).run answer s := by
  constructor
  · exact Handled.eq_run
  · rintro rfl
    obtain ⟨ran, h⟩ := exists_handled r aliasName answer s
    exact h.eq_run ▸ h

end Registry

end AgentSwarm
