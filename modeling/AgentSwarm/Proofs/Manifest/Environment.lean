/-
**What the environment changes.**

Two variables override a manifest, each of them one setting.  A text overrides the timeout when it is
a positive number of 64 bits; what is a number is said here by its characters, so that everything
else is seen to be passed over: blank texts, signs other than a plus, letters, numbers that are too
large.  What an override puts in is never empty and never zero, which is all that a valid manifest
asks of the two settings, so a valid manifest stays valid.

Main definitions:

* `AgentSwarm.Text.Counts` — a text of decimal digits, with blanks around them;
* `AgentSwarm.Manifest.OverriddenBy` — what becomes of a manifest in an environment.

Main results:

* `AgentSwarm.Text.word64?_trim` — which texts are numbers of 64 bits;
* `AgentSwarm.Manifest.validate_override` — a valid manifest stays valid;
* `AgentSwarm.Manifest.overriddenBy_override` — **the environment changes two settings at most**.
-/

import AgentSwarm.Manifest.Environment
import AgentSwarm.Manifest.Fault
import AgentSwarm.Proofs.Decimal.Notation
import AgentSwarm.Proofs.Text.Blank

set_option relaxedAutoImplicit false
set_option autoImplicit false

namespace AgentSwarm

/-! ### Texts of numbers -/

namespace Text

open Decimal

variable {s : String} {ds : List Char} {n : ℕ}

/-- The text is a number in decimal digits, perhaps behind a plus sign, with blanks around it. -/
def Counts (s : String) (n : ℕ) : Prop :=
  ∃ u sign ds v, s.toList = u ++ (sign ++ ds) ++ v ∧ (∀ c ∈ u, isBlank c = true) ∧
    (∀ c ∈ v, isBlank c = true) ∧ (sign = [] ∨ sign = ['+']) ∧ ds ≠ [] ∧
    (∀ c ∈ ds, c.isDigit = true) ∧ digitsValue ds = n

theorem decimal?_eq_some_iff :
    decimal? ds = some n ↔ ds ≠ [] ∧ (∀ c ∈ ds, c.isDigit = true) ∧ digitsValue ds = n := by
  by_cases h : ds ≠ [] ∧ ∀ c ∈ ds, c.isDigit = true
  · have hsome : decimal? ds = some (digitsValue ds) := by
      rw [decimal?, if_neg (by simpa [h.1] using h.2), foldl_eq_digitsValue]
    rw [hsome, Option.some.injEq, ← and_assoc, and_iff_right h]
  · have hnone : decimal? ds = none := by
      rwa [← Option.not_isSome_iff_eq_none, decimal?_isSome_iff]
    rw [hnone, ← and_assoc]
    exact iff_of_false (Option.some_ne_none n ∘ Eq.symm) fun hn => h hn.1

/-- Digits behind a sign or without begin and end without a blank. -/
theorem not_isBlank_ends {sign : List Char} (hsign : sign = [] ∨ sign = ['+']) (hne : ds ≠ [])
    (hds : ∀ c ∈ ds, c.isDigit = true) :
    (∀ c ∈ (sign ++ ds).head?, isBlank c = false) ∧
      ∀ c ∈ (sign ++ ds).getLast?, isBlank c = false := by
  have hdigit : ∀ c ∈ ds, isBlank c = false := fun c hc => not_isBlank_of_isDigit (hds c hc)
  constructor
  · intro c hc
    rcases hsign with rfl | rfl
    · exact hdigit c (List.mem_of_mem_head? hc)
    · obtain rfl : '+' = c := Option.some.inj hc
      rfl
  · intro c hc
    rw [List.getLast?_append_of_ne_nil _ hne] at hc
    exact hdigit c (List.mem_of_mem_getLast? hc)

/-- **The texts that are numbers of 64 bits** when they are trimmed. -/
theorem word64?_trim : word64? (trim s) = some n ↔ Counts s n ∧ n < UInt64.size := by
  have htrim : (trim s).toList = trimChars s.toList := String.toList_ofList
  rw [word64?, htrim]
  constructor
  · intro h
    obtain ⟨u, v, hu, hv, hs⟩ := exists_blanks s.toList
    obtain ⟨hvalue, hlt⟩ := Option.filter_eq_some_iff.1 h
    obtain ⟨hne, hds, hn⟩ := decimal?_eq_some_iff.1 hvalue
    refine ⟨?_, by simpa using hlt⟩
    split at hne
    next rest hplus =>
        rw [hplus] at hs hds hn
        exact ⟨u, ['+'], rest, v, hs, hu, hv, .inr rfl, hne, hds, hn⟩
    next hplus =>
        refine ⟨u, [], _, v, hs, hu, hv, .inl rfl, hne, ?_, ?_⟩
        · split at hds
          next rest heq => exact absurd heq (hplus rest)
          next => exact hds
        · split at hn
          next rest heq => exact absurd heq (hplus rest)
          next => exact hn
  · rintro ⟨⟨u, sign, ds, v, hs, hu, hv, hsign, hne, hds, hn⟩, hlt⟩
    obtain ⟨hhead, hlast⟩ := not_isBlank_ends hsign hne hds
    have hvalue : decimal? ds = some n := decimal?_eq_some_iff.2 ⟨hne, hds, hn⟩
    rw [hs, trimChars_between hu hv hhead hlast]
    rcases hsign with rfl | rfl
    · obtain ⟨c, tail, rfl⟩ := List.exists_cons_of_ne_nil hne
      -- a digit is no sign, so nothing is taken away
      have hplus : c ≠ '+' := by
        rintro rfl
        exact absurd (hds '+' List.mem_cons_self) (by decide)
      rw [List.nil_append]
      split
      next rest heq => exact absurd (List.cons.inj heq).1 hplus
      next => simp [hvalue, hlt]
    · simp [hvalue, hlt]

end Text

/-! ### What is put in -/

namespace Environment

variable {env : Environment} {s t : String} {d : Duration} {n : ℕ}

theorem strategy?_of_blank (h : ∀ s, env "OPTISWARM_STRATEGY" = some s →
    ∀ c ∈ s.toList, Text.isBlank c = true) : env.strategy? = none := by
  cases hs : env "OPTISWARM_STRATEGY" with
  | none => rw [strategy?, hs, Option.map_none, Option.filter_none]
  | some s =>
      have htrim : Text.trim s = "" := by
        rw [Text.trim, Text.trimChars_eq_nil_iff.2 (h s hs), String.ofList_nil]
      rw [strategy?, hs, Option.map_some, htrim]
      rfl

theorem strategy?_of_not_blank (hs : env "OPTISWARM_STRATEGY" = some s)
    (h : ¬ ∀ c ∈ s.toList, Text.isBlank c = true) : env.strategy? = some (Text.trim s) := by
  have htrim : Text.trim s ≠ "" := by
    intro hnil
    refine h (Text.trimChars_eq_nil_iff.1 ?_)
    rw [← String.toList_ofList (l := Text.trimChars s.toList)]
    exact congrArg String.toList hnil
  rw [strategy?, hs, Option.map_some, Option.filter_some, if_pos (by simpa using htrim)]

theorem strategy?_ne_empty (h : env.strategy? = some t) : t ≠ "" := by
  have hfilter := (Option.filter_eq_some_iff.1 h).2
  simpa using hfilter

/-- The timeouts that an environment can ask for. -/
theorem timeout?_eq_some_iff : env.timeout? = some d ↔
    ∃ s n, env "OPTISWARM_AGENT_TIMEOUT_SECS" = some s ∧ Text.Counts s n ∧ 0 < n ∧
      n < UInt64.size ∧ .ofSeconds n = d := by
  simp only [timeout?, Option.map_eq_some_iff, Option.filter_eq_some_iff, Option.bind_eq_some_iff,
    Text.word64?_trim, decide_eq_true_eq]
  constructor
  · rintro ⟨n, ⟨⟨s, hs, hcounts, hlt⟩, hpos⟩, hd⟩
    exact ⟨s, n, hs, hcounts, hpos, hlt, hd⟩
  · rintro ⟨s, n, hs, hcounts, hpos, hlt, hd⟩
    exact ⟨n, ⟨⟨s, hs, hcounts, hlt⟩, hpos⟩, hd⟩

theorem timeout?_not_isZero (h : env.timeout? = some d) : d.isZero = false := by
  obtain ⟨s, n, -, -, hpos, -, rfl⟩ := timeout?_eq_some_iff.1 h
  simp only [Duration.isZero, Duration.ofSeconds, beq_eq_false_iff_ne]
  omega

end Environment

/-! ### The manifest that is overridden -/

namespace Manifest

variable {env : Environment} {m : Manifest}

/-- **A valid manifest stays valid.** -/
theorem validate_override (h : m.validate = .ok ()) : (m.override env).validate = .ok () := by
  have hstrategy : m.settings.strategy ≠ "" → (m.override env).settings.strategy ≠ "" := by
    intro hkept
    show env.strategy?.getD m.settings.strategy ≠ ""
    cases hs : env.strategy? with
    | none => exact hkept
    | some t => exact Environment.strategy?_ne_empty hs
  have htimeout : m.settings.agentTimeout.isZero = false →
      (m.override env).settings.agentTimeout.isZero = false := by
    intro hkept
    show (env.timeout?.getD m.settings.agentTimeout).isZero = false
    cases hd : env.timeout? with
    | none => exact hkept
    | some d => exact Environment.timeout?_not_isZero hd
  rw [validate_eq_ok_iff] at h ⊢
  simp only [faults, Settings.faults, List.append_eq_nil_iff, faultIf_eq_nil, beq_eq_false_iff_ne]
    at h ⊢
  obtain ⟨hothers, ⟨⟨⟨hs, hwindow⟩, hd⟩, hquotas⟩, hagents⟩ := h
  exact ⟨hothers, ⟨⟨⟨hstrategy hs, hwindow⟩, htimeout hd⟩, hquotas⟩, hagents⟩

/-- What becomes of a manifest in an environment. -/
structure OverriddenBy (env : Environment) (m m' : Manifest) : Prop where
  /-- Two settings may be others; the rest is kept. -/
  frame : m' = { m with settings := { m.settings with
    strategy := m'.settings.strategy
    agentTimeout := m'.settings.agentTimeout } }
  /-- The strategy is kept when the variable for it is not there or blank. -/
  strategy_kept : (∀ s, env "OPTISWARM_STRATEGY" = some s → ∀ c ∈ s.toList, Text.isBlank c = true) →
    m'.settings.strategy = m.settings.strategy
  /-- Any other text is the strategy, without the blanks around it. -/
  strategy_set : ∀ s, env "OPTISWARM_STRATEGY" = some s →
    (¬ ∀ c ∈ s.toList, Text.isBlank c = true) → m'.settings.strategy = Text.trim s
  /-- The timeout is kept unless the variable for it is a positive number of 64 bits. -/
  timeout_kept : (∀ s n, env "OPTISWARM_AGENT_TIMEOUT_SECS" = some s → Text.Counts s n →
      n = 0 ∨ UInt64.size ≤ n) →
    m'.settings.agentTimeout = m.settings.agentTimeout
  /-- Such a number is the timeout in seconds. -/
  timeout_set : ∀ s n, env "OPTISWARM_AGENT_TIMEOUT_SECS" = some s → Text.Counts s n → 0 < n →
    n < UInt64.size → m'.settings.agentTimeout = .ofSeconds n
  /-- A second time the environment changes nothing. -/
  again : m'.override env = m'
  /-- A valid manifest stays valid. -/
  valid : m.validate = .ok () → m'.validate = .ok ()

/-- **The environment changes two settings at most**, each only to what its variable says, and keeps
manifests valid. -/
theorem overriddenBy_override (env : Environment) (m : Manifest) :
    OverriddenBy env m (m.override env) := by
  constructor
  case frame => rfl
  case strategy_kept =>
    intro h
    show env.strategy?.getD m.settings.strategy = _
    rw [Environment.strategy?_of_blank h, Option.getD_none]
  case strategy_set =>
    intro s hs h
    show env.strategy?.getD m.settings.strategy = _
    rw [Environment.strategy?_of_not_blank hs h, Option.getD_some]
  case timeout_kept =>
    intro h
    show env.timeout?.getD m.settings.agentTimeout = _
    cases hd : env.timeout? with
    | none => rfl
    | some d =>
        obtain ⟨s, n, hs, hcounts, hpos, hlt, -⟩ := Environment.timeout?_eq_some_iff.1 hd
        rcases h s n hs hcounts with hzero | hlarge
        · exact absurd hzero hpos.ne'
        · exact absurd hlt hlarge.not_gt
  case timeout_set =>
    intro s n hs hcounts hpos hlt
    show env.timeout?.getD m.settings.agentTimeout = _
    rw [Environment.timeout?_eq_some_iff.2 ⟨s, n, hs, hcounts, hpos, hlt, rfl⟩, Option.getD_some]
  case again => exact override_override env m
  case valid => exact validate_override

end Manifest

end AgentSwarm
