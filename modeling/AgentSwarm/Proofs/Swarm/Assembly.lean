/-
**Putting a swarm together.**

Settings name a strategy, an algorithm, perhaps a variant, and agents with their roles.  The names
are looked up first, then the executor is made, then the agents are registered one after another,
those of the variant before the others.  Each of these steps may refuse, and nothing else does: a
swarm comes of settings exactly when their names are known, no quota is zero and no id is taken
twice.  A valid manifest has no quota of zero and names no agent twice, and its environment changes
neither; so all that is left to refuse there are unknown names, and agents that the variant has
already.

Main definitions:

* `AgentSwarm.Settings.entries` — all agents that settings ask for, those of the variant first;
* `AgentSwarm.Settings.Known`, `AgentSwarm.Settings.Unknown` — the names in settings are known, or one
  is not;
* `AgentSwarm.Settings.assemble`, `AgentSwarm.Settings.Refuses` — the swarm of settings, and what they
  are refused for;
* `AgentSwarm.Swarm.Assembled` — a swarm as settings describe it.

Main results:

* `AgentSwarm.Blueprint.foldlM_register_of_ok`, `AgentSwarm.Blueprint.foldlM_register_of_error` — what
  registering some agents comes to;
* `AgentSwarm.Blueprint.ofSettings_eq_ok_iff`, `AgentSwarm.Settings.unknown_of_ofSettings` — when the
  names in settings are found, and what is wrong when they are not;
* `AgentSwarm.Settings.assembled`, `AgentSwarm.Settings.refuses` — what settings make, or why not;
* `AgentSwarm.Settings.Refuses.left` — what is left to refuse when no quota is zero and no agent is
  named twice;
* `AgentSwarm.Settings.assembly` — **which settings make a swarm, what swarm it is, and what may be
  refused in a valid manifest**.
-/

import AgentSwarm.Manifest.Environment
import AgentSwarm.Manifest.Fault
import AgentSwarm.Proofs.Agent.History
import AgentSwarm.Proofs.Json.Rest
import AgentSwarm.Proofs.Roster.Changes
import AgentSwarm.Proofs.Swarm.Life

set_option relaxedAutoImplicit false
set_option autoImplicit false

namespace AgentSwarm

open Json (bind_eq_ok)

/-! ### Steps that may fail -/

section

variable {A B E : Type} {f : A → Except E B} {xs : List A}

/-- Two steps fail in the first one or in the second. -/
theorem bind_eq_error {a : Except E A} {e : E} :
    (a >>= f) = .error e ↔ a = .error e ∨ ∃ x, a = .ok x ∧ f x = .error e := by
  cases a <;> simp [bind, Except.bind]

/-- Looking up some things finds all of them. -/
theorem mapM_eq_ok_iff {ys : List B} :
    xs.mapM f = .ok ys ↔ List.Forall₂ (fun x y => f x = .ok y) xs ys := by
  induction xs generalizing ys with
  | nil => simp [pure, Except.pure, eq_comm]
  | cons x xs ih =>
      rw [List.mapM_cons, bind_eq_ok, List.forall₂_cons_left_iff]
      simp only [bind_eq_ok, ih, pure, Except.pure, Except.ok.injEq]
      constructor
      · rintro ⟨y, hy, rest, hrest, rfl⟩
        exact ⟨y, rest, hy, hrest, rfl⟩
      · rintro ⟨y, rest, hy, hrest, rfl⟩
        exact ⟨y, hy, rest, hrest, rfl⟩

/-- Looking up some things fails when one of them is not found. -/
theorem exists_of_mapM_eq_error {e : E} (h : xs.mapM f = .error e) : ∃ x ∈ xs, f x = .error e := by
  induction xs with
  | nil => cases h
  | cons x xs ih =>
      rw [List.mapM_cons] at h
      rcases bind_eq_error.1 h with hx | ⟨y, -, h⟩
      · exact ⟨x, List.mem_cons_self, hx⟩
      rcases bind_eq_error.1 h with hrest | ⟨ys, -, h⟩
      · obtain ⟨z, hz, hfail⟩ := ih hrest
        exact ⟨z, List.mem_cons_of_mem _ hz, hfail⟩
      · cases h

end

/-- What some things are found as may be found as something else. -/
theorem forall₂_trans {A B C : Type} {R : A → B → Prop} {S : B → C → Prop} {T : A → C → Prop}
    (h : ∀ a b c, R a b → S b c → T a c) {as : List A} {bs : List B} {cs : List C}
    (hab : List.Forall₂ R as bs) (hbc : List.Forall₂ S bs cs) : List.Forall₂ T as cs := by
  induction hab generalizing cs with
  | nil =>
      cases hbc
      exact .nil
  | cons ha _ ih =>
      cases hbc with
      | cons hb hrest => exact .cons (h _ _ _ ha hb) (ih hrest)

/-! ### What settings ask for -/

/-- The agent of a seat as settings would name it. -/
def Seat.entry (seat : Seat) : RosterEntry :=
  ⟨seat.id, seat.specialization, seat.role.name, seat.partition, defaultProfile⟩

namespace Settings

variable {s : Settings}

/-- The roster of the variant that settings choose. -/
def seats (s : Settings) : List Seat :=
  match s.variant.map Variant.parse with
  | some (.ok v) => v.seats
  | _ => []

/-- All agents that settings ask for, those of the variant first. -/
def entries (s : Settings) : List RosterEntry := s.seats.map Seat.entry ++ s.agents

/-- The names in settings are known. -/
structure Known (s : Settings) : Prop where
  strategy : ∃ strategy, Strategy.find s.strategy = .ok strategy
  algorithm : ∃ algorithm, Algorithm.parse s.defaultAlgorithm = .ok algorithm
  variant : ∀ name ∈ s.variant, ∃ v, Variant.parse name = .ok v
  roles : ∀ e ∈ s.agents, ∃ role, Role.parse e.role = .ok role

/-- The swarm of settings, with a name and an identifier. -/
def assemble (s : Settings) (name : String) (id : List Char) : Except SwarmError Swarm := do
  (← Blueprint.ofSettings name s).build id

/-- A name in settings is not known. -/
inductive Unknown (s : Settings) : SwarmError → Prop
  | strategy (h : ∀ strategy, Strategy.find s.strategy ≠ .ok strategy) :
      Unknown s (.unknownStrategy s.strategy)
  | algorithm (h : ∀ algorithm, Algorithm.parse s.defaultAlgorithm ≠ .ok algorithm) :
      Unknown s (.unknownAlgorithm (Text.normalizedSnake s.defaultAlgorithm))
  | variant {name : String} (hname : s.variant = some name) (h : ∀ v, Variant.parse name ≠ .ok v) :
      Unknown s (.unknownVariant name)
  | role {e : RosterEntry} (he : e ∈ s.agents) (h : ∀ role, Role.parse e.role ≠ .ok role) :
      Unknown s (.unknownRole (Text.normalized e.role))

/-- What settings are refused for. -/
inductive Refuses (s : Settings) : SwarmError → Prop
  | unknown {e : SwarmError} (h : s.Unknown e) : Refuses s e
  | quota {partition : String} (h : (partition, 0) ∈ s.partitionQuotas) :
      Refuses s (.zeroQuota partition)
  /-- An agent comes behind another one of its id. -/
  | agent {before behind : List String} {agentId : String}
      (hentries : s.entries.map (·.id) = before ++ agentId :: behind) (h : agentId ∈ before) :
      Refuses s (.duplicateAgent agentId)

end Settings

/-- The agent that settings ask for, as it is registered. -/
structure RosterEntry.Enlists (window : Nat) (e : RosterEntry) (a : Agent) : Prop where
  id : a.id = e.id
  specialization : a.specialization = e.specialization
  role : Role.parse e.role = .ok a.role
  partition : a.partition = e.partition
  profile : a.profile = e.profile
  status : a.status = .active
  history : a.history = ⟨max window 1, [], 0⟩

/-- A swarm as settings describe it. -/
structure Swarm.Assembled (swarm : Swarm) (s : Settings) : Prop where
  strategy : Strategy.find s.strategy = .ok swarm.world.executor.strategy
  algorithm : Algorithm.parse s.defaultAlgorithm = .ok swarm.defaultAlgorithm
  timeout : swarm.world.executor.settings.agentTimeout = s.agentTimeout
  quotas : swarm.world.executor.settings.partitionQuotas = s.partitionQuotas
  /-- The agents of the variant and the others behind them, and nobody else. -/
  agents : List.Forall₂ (RosterEntry.Enlists s.historyWindow) s.entries swarm.roster.agents
  /-- Everybody is linked to all others. -/
  peers : ∀ a ∈ swarm.roster.agents, ∀ id, id ∈ a.peers ↔ id ∈ swarm.roster.ids ∧ id ≠ a.id

/-! ### Registering agents -/

namespace Blueprint

variable {agents : List AgentSpec} {swarm swarm' : Swarm}

/-- The agent that is registered. -/
def agentOf (window : Nat) (a : AgentSpec) : Agent :=
  .create a.id a.specialization a.role a.partition a.profile window

/-- The changes of a roster in which some agents are registered. -/
def additions (window : Nat) (agents : List AgentSpec) : List Roster.Change :=
  agents.map fun a => .add (agentOf window a)

/-- **Agents that are registered are added to the roster**, and beside it only the bus is changed. -/
theorem foldlM_register_of_ok (done : List AgentSpec) {window : Nat}
    (hroster : swarm.roster.Reflects (additions window done)) (hwindow : swarm.historyWindow = window)
    (h : agents.foldlM register swarm = .ok swarm') :
    swarm'.roster.Reflects (additions window (done ++ agents)) ∧
      swarm'.world = swarm.world ∧ swarm'.defaultAlgorithm = swarm.defaultAlgorithm := by
  induction agents generalizing swarm done with
  | nil =>
      obtain rfl := Except.ok.inj h
      rw [List.append_nil]
      exact ⟨hroster, rfl, rfl⟩
  | cons a rest ih =>
      rw [List.foldlM_cons, bind_eq_ok] at h
      obtain ⟨next, hnext, h⟩ := h
      obtain ⟨roster, hadd, hnext⟩ := Swarm.register_spec hnext
      rw [hwindow] at hadd
      have hadded : roster.Reflects (additions window (done ++ [a])) := by
        rw [additions, List.map_append]
        exact hroster.add hadd
      have hall := @ih next (done ++ [a]) (hnext ▸ hadded) (hnext ▸ hwindow) h
      rw [← List.append_cons] at hall
      rw [hnext] at hall
      exact hall

/-- **Registering some agents fails** at the first whose id is taken. -/
theorem foldlM_register_of_error {e : SwarmError} (h : agents.foldlM register swarm = .error e) :
    ∃ before a behind, agents = before ++ a :: behind ∧ e = .duplicateAgent a.id ∧
      a.id ∈ swarm.roster.ids ++ before.map (·.id) := by
  induction agents generalizing swarm with
  | nil => cases h
  | cons a rest ih =>
      rw [List.foldlM_cons] at h
      rcases bind_eq_error.1 h with hfirst | ⟨next, hnext, h⟩
      · obtain ⟨htaken, rfl⟩ := Swarm.register_eq_error_iff.1 hfirst
        exact ⟨[], a, rest, rfl, rfl, List.mem_append_left _ htaken⟩
      · obtain ⟨before, b, behind, rfl, he, htaken⟩ := ih h
        obtain ⟨roster, hadd, rfl⟩ := Swarm.register_spec hnext
        obtain ⟨hids, -⟩ := Swarm.ids_add hadd
        refine ⟨a :: before, b, behind, rfl, he, ?_⟩
        have hmem : b.id ∈ roster.ids ++ before.map (·.id) := htaken
        rwa [hids, List.append_assoc] at hmem

/-! ### Names -/

variable {name : String} {s : Settings}

theorem specOf_eq_ok_iff {e : RosterEntry} {a : AgentSpec} : specOf e = .ok a ↔
    Role.parse e.role = .ok a.role ∧ a = ⟨e.id, e.specialization, a.role, e.partition, e.profile⟩ := by
  rw [specOf, bind_eq_ok]
  constructor
  · rintro ⟨role, hrole, h⟩
    obtain rfl := Except.ok.inj h
    exact ⟨hrole, rfl⟩
  · rintro ⟨hrole, ha⟩
    exact ⟨a.role, hrole, congrArg _ ha.symm⟩

/-- An entry is refused when its role is. -/
theorem parse_of_specOf_eq_error {entry : RosterEntry} {e : SwarmError}
    (h : specOf entry = .error e) : Role.parse entry.role = .error e := by
  rcases bind_eq_error.1 h with hrole | ⟨role, -, h⟩
  · exact hrole
  · cases h

/-- The variant of a name, if there is one. -/
def variantOf : Option String → Except SwarmError (Option Variant)
  | some name => (Variant.parse name).map some
  | none => .ok none

/-- There is a variant to look up when none is found. -/
theorem exists_of_variantOf_eq_error {v : Option String} {e : SwarmError}
    (h : variantOf v = .error e) : ∃ name, v = some name ∧ Variant.parse name = .error e := by
  cases v with
  | none => cases h
  | some name =>
      rw [variantOf] at h
      cases hparse : Variant.parse name with
      | ok found =>
          rw [hparse] at h
          cases h
      | error e' =>
          rw [hparse] at h
          exact ⟨name, rfl, hparse.trans (congrArg _ (Except.error.inj h))⟩

/-- The blueprint of settings whose names have been found. -/
def ofFound (name : String) (s : Settings) (strategy : Strategy) (algorithm : Algorithm)
    (variant : Option Variant) (agents : List AgentSpec) : Blueprint :=
  { named name with
    strategy, defaultAlgorithm := algorithm, variant, agents, historyWindow := s.historyWindow
    settings := { ExecutorSettings.standard with
      agentTimeout := s.agentTimeout, partitionQuotas := s.partitionQuotas } }

/-- The names are looked up one after another. -/
theorem ofSettings_eq : ofSettings name s = do
    let strategy ← Strategy.find s.strategy
    let algorithm ← Algorithm.parse s.defaultAlgorithm
    let variant ← variantOf s.variant
    let agents ← s.agents.mapM specOf
    return ofFound name s strategy algorithm variant agents := by
  rw [ofSettings]
  cases s.variant <;> rfl

/-- **Settings become a blueprint** when all their names are found. -/
theorem ofSettings_eq_ok_iff {b : Blueprint} : ofSettings name s = .ok b ↔
    ∃ strategy algorithm variant agents,
      Strategy.find s.strategy = .ok strategy ∧ Algorithm.parse s.defaultAlgorithm = .ok algorithm ∧
      variantOf s.variant = .ok variant ∧
      List.Forall₂ (fun e a => specOf e = .ok a) s.agents agents ∧
      ofFound name s strategy algorithm variant agents = b := by
  simp only [ofSettings_eq, bind_eq_ok, mapM_eq_ok_iff, pure, Except.pure, Except.ok.injEq]
  grind

/-- The agents of a blueprint are those that settings ask for. -/
theorem forall₂_entries (name : String) (strategy : Strategy) (algorithm : Algorithm)
    {variant : Option Variant} {agents : List AgentSpec}
    (hvariant : variantOf s.variant = .ok variant)
    (hagents : List.Forall₂ (fun e a => specOf e = .ok a) s.agents agents) :
    let b := ofFound name s strategy algorithm variant agents
    List.Forall₂ (fun e a => specOf e = .ok a) s.entries (b.variantAgents ++ b.agents) := by
  refine List.rel_append ?_ hagents
  have hseat : ∀ seat : Seat, specOf seat.entry = .ok ⟨seat.id, seat.specialization, seat.role,
      seat.partition, defaultProfile⟩ := by
    intro seat
    rw [specOf, Seat.entry, Role.parse_name]
    rfl
  have hseats : ∀ seats : List Seat, List.Forall₂ (fun e a => specOf e = .ok a) (seats.map Seat.entry)
      (seats.map fun s => ⟨s.id, s.specialization, s.role, s.partition, defaultProfile⟩) := by
    intro seats
    rw [List.forall₂_map_left_iff, List.forall₂_map_right_iff, List.forall₂_same]
    exact fun seat _ => hseat seat
  cases hname : s.variant with
  | none =>
      rw [hname] at hvariant
      obtain rfl := Except.ok.inj hvariant
      simp [Settings.seats, hname, variantAgents, ofFound]
  | some v =>
      rw [hname, variantOf] at hvariant
      cases hv : Variant.parse v with
      | error e =>
          rw [hv] at hvariant
          cases hvariant
      | ok found =>
          rw [hv] at hvariant
          obtain rfl := Except.ok.inj hvariant
          simpa [Settings.seats, hname, hv, variantAgents, ofFound, named] using hseats found.seats

theorem ids_eq_of_forall₂ {entries : List RosterEntry} {agents : List AgentSpec}
    (h : List.Forall₂ (fun e a => specOf e = .ok a) entries agents) :
    agents.map (·.id) = entries.map (·.id) := by
  have hids : List.Forall₂ (· = ·) (entries.map (·.id)) (agents.map (·.id)) := by
    rw [List.forall₂_map_left_iff, List.forall₂_map_right_iff]
    refine h.imp fun e a he => ?_
    rw [(specOf_eq_ok_iff.1 he).2]
  rw [List.forall₂_eq_eq_eq] at hids
  exact hids.symm

/-- Agents that were registered are enlisted as settings ask for. -/
theorem enlists_of_reflects {entries : List RosterEntry} {agents : List AgentSpec} {window : Nat}
    {r : Roster} (hspecs : List.Forall₂ (fun e a => specOf e = .ok a) entries agents)
    (h : r.Reflects (additions (max window 1) agents)) :
    List.Forall₂ (RosterEntry.Enlists window) entries r.agents := by
  have hadded : (additions (max window 1) agents).filterMap (·.added?) =
      agents.map (agentOf (max window 1)) := by
    rw [additions, List.filterMap_map]
    exact congrFun (List.filterMap_eq_map (f := agentOf (max window 1))) agents
  have hstatus : ∀ a, Roster.statusIn (additions (max window 1) agents) a = a.status := by
    intro a
    rw [Roster.statusIn, additions, List.filterMap_map]
    have hnone : agents.filterMap ((Roster.Change.statusFor? a.id) ∘
        fun a => .add (agentOf (max window 1) a)) = [] := List.filterMap_eq_nil_iff.2 fun _ _ => rfl
    rw [hnone]
    rfl
  have hagents := h.agents
  rw [hadded, List.forall₂_map_left_iff] at hagents
  refine forall₂_trans (fun e a b he hb => ?_) hspecs hagents
  obtain ⟨hrole, ha⟩ := specOf_eq_ok_iff.1 he
  obtain ⟨peers, rfl⟩ := hb
  rw [hstatus, ha]
  exact ⟨rfl, rfl, hrole, rfl, rfl, rfl, History.empty_max ..⟩

theorem ids_eq_of_enlists {entries : List RosterEntry} {window : Nat} {r : Roster}
    (h : List.Forall₂ (RosterEntry.Enlists window) entries r.agents) :
    r.ids = entries.map (·.id) := by
  have hids : List.Forall₂ (· = ·) (entries.map (·.id)) (r.agents.map (·.id)) := by
    rw [List.forall₂_map_left_iff, List.forall₂_map_right_iff]
    exact h.imp fun _ _ he => he.id.symm
  rw [List.forall₂_eq_eq_eq] at hids
  exact hids.symm

/-- A swarm is built by registering agents in one that has an executor and no agents. -/
theorem build_eq {b : Blueprint} {id : List Char} : b.build id =
    (Executor.create b.strategy b.settings >>= fun x =>
      (b.variantAgents ++ b.agents).foldlM register (b.vacant id x)) := rfl

end Blueprint

/-! ### What is refused -/

theorem Strategy.find_eq_error {name : String} {e : SwarmError} (h : Strategy.find name = .error e) :
    e = .unknownStrategy name := by
  rw [find] at h
  split at h
  next => cases h
  next => exact (Except.error.inj h).symm

theorem Algorithm.parse_eq_error {name : String} {e : SwarmError}
    (h : Algorithm.parse name = .error e) : e = .unknownAlgorithm (Text.normalizedSnake name) := by
  simp only [parse] at h
  split at h
  next => cases h
  split at h
  next => cases h
  next => exact (Except.error.inj h).symm

theorem Variant.parse_eq_error {name : String} {e : SwarmError} (h : Variant.parse name = .error e) :
    e = .unknownVariant name := by
  rw [parse] at h
  split at h
  next => cases h
  next => exact (Except.error.inj h).symm

theorem Role.parse_eq_error {name : String} {e : SwarmError} (h : Role.parse name = .error e) :
    e = .unknownRole (Text.normalized name) := by
  simp only [parse] at h
  split at h
  next => cases h
  split at h
  next => cases h
  next => exact (Except.error.inj h).symm

/-- The strategies that are known by name can be used. -/
theorem Strategy.validate_of_find {name : String} {strategy : Strategy}
    (h : Strategy.find name = .ok strategy) : strategy.validate = .ok () := by
  rw [find] at h
  split at h
  next found hfound =>
      obtain rfl := Except.ok.inj h
      have hmem := List.mem_of_find?_eq_some hfound
      simp only [catalog, List.mem_cons, List.not_mem_nil, or_false] at hmem
      rcases hmem with rfl | rfl | rfl | rfl <;> rfl
  next => cases h

/-- An executor of a strategy that can be used is refused for a quota of zero. -/
theorem Executor.create_eq_error {strategy : Strategy} {settings : ExecutorSettings} {e : SwarmError}
    (hvalid : strategy.validate = .ok ()) (h : create strategy settings = .error e) :
    ∃ partition, (partition, 0) ∈ settings.partitionQuotas ∧ e = .zeroQuota partition := by
  rw [create, hvalid] at h
  dsimp only at h
  split at h
  next partition n hfound =>
      obtain rfl := Except.error.inj h
      have hzero : n = 0 := by simpa using List.find?_some hfound
      exact ⟨partition, hzero ▸ List.mem_of_find?_eq_some hfound, rfl⟩
  next => cases h

namespace Settings

variable {s : Settings} {name : String} {id : List Char}

/-- **A blueprint is refused** for a name that is not known. -/
theorem unknown_of_ofSettings {e : SwarmError} (h : Blueprint.ofSettings name s = .error e) :
    s.Unknown e := by
  rw [Blueprint.ofSettings_eq] at h
  rcases bind_eq_error.1 h with hstrategy | ⟨strategy, -, h⟩
  · rw [Strategy.find_eq_error hstrategy]
    exact .strategy fun _ hfound => by simp [hstrategy] at hfound
  rcases bind_eq_error.1 h with halgorithm | ⟨algorithm, -, h⟩
  · rw [Algorithm.parse_eq_error halgorithm]
    exact .algorithm fun _ hfound => by simp [halgorithm] at hfound
  rcases bind_eq_error.1 h with hvariant | ⟨variant, -, h⟩
  · obtain ⟨v, hname, hv⟩ := Blueprint.exists_of_variantOf_eq_error hvariant
    rw [Variant.parse_eq_error hv]
    exact .variant hname fun _ hfound => by simp [hv] at hfound
  rcases bind_eq_error.1 h with hagents | ⟨agents, -, h⟩
  · obtain ⟨entry, hentry, hspec⟩ := exists_of_mapM_eq_error hagents
    have hrole := Blueprint.parse_of_specOf_eq_error hspec
    rw [Role.parse_eq_error hrole]
    exact .role hentry fun _ hfound => by simp [hrole] at hfound
  · cases h

/-- **What settings make** is a swarm as they describe it. -/
theorem assembled {swarm : Swarm} (h : s.assemble name id = .ok swarm) :
    s.Known ∧ (∀ q ∈ s.partitionQuotas, q.2 ≠ 0) ∧ (s.entries.map (·.id)).Nodup ∧
      swarm.Assembled s := by
  obtain ⟨b, hb, hbuild⟩ := bind_eq_ok.1 h
  obtain ⟨strategy, algorithm, variant, agents, hstrategy, halgorithm, hvariant, hagents, rfl⟩ :=
    Blueprint.ofSettings_eq_ok_iff.1 hb
  rw [Blueprint.build_eq, bind_eq_ok] at hbuild
  obtain ⟨x, hx, hbuild⟩ := hbuild
  obtain ⟨-, hquotas, rfl⟩ := Executor.create_eq_ok_iff.1 hx
  have hspecs := Blueprint.forall₂_entries name strategy algorithm hvariant hagents
  obtain ⟨hroster, hworld, hdefault⟩ :=
    Blueprint.foldlM_register_of_ok [] Roster.reflects_empty rfl hbuild
  rw [List.nil_append] at hroster
  have henlists := Blueprint.enlists_of_reflects hspecs hroster
  refine ⟨⟨⟨_, hstrategy⟩, ⟨_, halgorithm⟩, ?variant, ?roles⟩, hquotas, ?nodup, ?assembled⟩
  case variant =>
      intro v hv
      rw [Option.mem_def.1 hv, Blueprint.variantOf] at hvariant
      cases hparse : Variant.parse v with
      | ok found => exact ⟨found, rfl⟩
      | error e =>
          rw [hparse] at hvariant
          cases hvariant
  case roles =>
      intro e he
      obtain ⟨i, hi, rfl⟩ := List.getElem_of_mem he
      exact ⟨_, (Blueprint.specOf_eq_ok_iff.1 (hagents.get hi (hagents.length_eq ▸ hi))).1⟩
  case nodup =>
      rw [← Blueprint.ids_eq_of_enlists henlists]
      exact hroster.nodup
  case assembled =>
      refine ⟨?_, hdefault ▸ halgorithm, ?_, ?_, henlists, hroster.mem_peers⟩
      · rw [hworld]
        exact hstrategy
      · rw [hworld]
        rfl
      · rw [hworld]
        rfl

/-- **What settings are refused for.** -/
theorem refuses {e : SwarmError} (h : s.assemble name id = .error e) : s.Refuses e := by
  rcases bind_eq_error.1 h with hb | ⟨b, hb, hbuild⟩
  · exact .unknown (unknown_of_ofSettings hb)
  obtain ⟨strategy, algorithm, variant, agents, hstrategy, -, hvariant, hagents, rfl⟩ :=
    Blueprint.ofSettings_eq_ok_iff.1 hb
  rw [Blueprint.build_eq] at hbuild
  rcases bind_eq_error.1 hbuild with hx | ⟨x, -, hregister⟩
  · obtain ⟨partition, hzero, rfl⟩ :=
      Executor.create_eq_error (Strategy.validate_of_find hstrategy) hx
    exact .quota hzero
  · obtain ⟨before, a, behind, hsplit, rfl, htaken⟩ :=
      Blueprint.foldlM_register_of_error hregister
    have hids := Blueprint.ids_eq_of_forall₂
      (Blueprint.forall₂_entries name strategy algorithm hvariant hagents)
    rw [hsplit, List.map_append, List.map_cons] at hids
    exact .agent hids.symm htaken

/-- Nothing is refused of settings that keep to the rules. -/
theorem Known.not_refuses {e : SwarmError} (h : s.Known) (hquotas : ∀ q ∈ s.partitionQuotas, q.2 ≠ 0)
    (hids : (s.entries.map (·.id)).Nodup) : ¬ s.Refuses e := by
  rintro (hunknown | hzero | ⟨hentries, hbefore⟩)
  · cases hunknown with
    | strategy hnone =>
        obtain ⟨_, hfound⟩ := h.strategy
        exact hnone _ hfound
    | algorithm hnone =>
        obtain ⟨_, hfound⟩ := h.algorithm
        exact hnone _ hfound
    | variant hname hnone =>
        obtain ⟨_, hfound⟩ := h.variant _ hname
        exact hnone _ hfound
    | role he hnone =>
        obtain ⟨_, hfound⟩ := h.roles _ he
        exact hnone _ hfound
  · exact hquotas _ hzero rfl
  · rw [hentries] at hids
    exact (List.nodup_append.1 hids).2.2 _ hbefore _ List.mem_cons_self rfl

end Settings

/-! ### Valid manifests -/

namespace Manifest

variable {m : Manifest}

/-- A valid manifest gives no quota of zero. -/
theorem quotas_of_validate (h : m.validate = .ok ()) :
    ∀ q ∈ m.settings.partitionQuotas, q.2 ≠ 0 := by
  have hfaults := validate_eq_ok_iff.1 h
  simp only [faults, Settings.faults, List.append_eq_nil_iff, List.flatMap_eq_nil_iff,
    faultIf_eq_nil] at hfaults
  intro q hq hzero
  have := hfaults.2.1.2 q hq
  simp [hzero] at this

/-- A valid manifest names no agent twice. -/
theorem nodup_of_validate (h : m.validate = .ok ()) : (m.settings.agents.map (·.id)).Nodup := by
  have hfaults := validate_eq_ok_iff.1 h
  simp only [faults, Settings.faults, List.append_eq_nil_iff] at hfaults
  exact (agents_faults_eq_nil_iff.1 hfaults.2.2).2

end Manifest

namespace Settings

/-- No variant has two seats for one agent. -/
theorem nodup_seats (s : Settings) : (s.seats.map (·.id)).Nodup := by
  rw [seats]
  split
  next v _ => exact v.nodup_seats
  next => exact List.nodup_nil

/-- **What is left to refuse** when no quota is zero and no agent is named twice: names that are not
known, and agents that the variant has already. -/
theorem Refuses.left {s : Settings} {e : SwarmError} (h : s.Refuses e)
    (hquotas : ∀ q ∈ s.partitionQuotas, q.2 ≠ 0) (hids : (s.agents.map (·.id)).Nodup) :
    s.Unknown e ∨ ∃ a ∈ s.agents, a.id ∈ s.seats.map (·.id) ∧ e = .duplicateAgent a.id := by
  cases h with
  | unknown hunknown => exact .inl hunknown
  | quota hzero => exact absurd rfl (hquotas _ hzero)
  | @agent before behind agentId hentries hbefore =>
      have hseats : s.entries.map (·.id) = s.seats.map (·.id) ++ s.agents.map (·.id) := by
        rw [entries, List.map_append, List.map_map]
        rfl
      rw [hseats] at hentries
      -- the id is there twice, and at most once among the seats and once among the others
      have hcount := congrArg (List.count agentId) hentries
      rw [List.count_append, List.count_append, List.count_cons_self] at hcount
      have hbefore := List.count_pos_iff.2 hbefore
      have hseated := List.nodup_iff_count_le_one.1 s.nodup_seats agentId
      have hnamed := List.nodup_iff_count_le_one.1 hids agentId
      have hseat : agentId ∈ s.seats.map (·.id) := List.count_pos_iff.1 (by omega)
      have hagent : agentId ∈ s.agents.map (·.id) := List.count_pos_iff.1 (by omega)
      obtain ⟨a, ha, rfl⟩ := List.mem_map.1 hagent
      exact .inr ⟨a, ha, hseat, rfl⟩

/-- **Settings make a swarm exactly when** their names are known, no quota is zero and no id is taken
twice.  The swarm has the agents of the variant and the others behind them, as settings describe
them; all that may be refused in a valid manifest, whatever its environment, are names that are not
known and agents that the variant has already. -/
theorem assembly :
    (∀ (s : Settings) (name : String) (id : List Char),
      (∃ swarm, s.assemble name id = .ok swarm) ↔
        s.Known ∧ (∀ q ∈ s.partitionQuotas, q.2 ≠ 0) ∧ (s.entries.map (·.id)).Nodup) ∧
    (∀ (s : Settings) (name : String) (id : List Char) (swarm : Swarm),
      s.assemble name id = .ok swarm → swarm.Assembled s) ∧
    (∀ (m : Manifest) (env : Environment) (id : List Char) (e : SwarmError),
      m.validate = .ok () → (m.override env).settings.assemble m.name id = .error e →
        (m.override env).settings.Unknown e ∨
          ∃ a ∈ m.settings.agents, a.id ∈ m.settings.seats.map (·.id) ∧
            e = .duplicateAgent a.id) := by
  refine ⟨fun s name id => ⟨?_, ?_⟩, ?_, ?_⟩
  · rintro ⟨swarm, h⟩
    obtain ⟨hknown, hquotas, hids, -⟩ := assembled h
    exact ⟨hknown, hquotas, hids⟩
  · rintro ⟨hknown, hquotas, hids⟩
    cases h : s.assemble name id with
    | ok swarm => exact ⟨swarm, rfl⟩
    | error e => exact absurd (refuses h) (hknown.not_refuses hquotas hids)
  · intro s name id swarm h
    exact (assembled h).2.2.2
  · intro m env id e hvalid h
    -- the environment changes neither the quotas nor the agents
    have hquotas : ∀ q ∈ (m.override env).settings.partitionQuotas, q.2 ≠ 0 :=
      m.quotas_of_validate hvalid
    have hids : ((m.override env).settings.agents.map (·.id)).Nodup := m.nodup_of_validate hvalid
    exact (refuses h).left hquotas hids

end Settings

/-- A manifest that names an agent of its variant once more. -/
def Manifest.crowded : Manifest :=
  { apiVersion := supportedVersion, kind := supportedKind, name := "crowd"
    version := none, labels := none, providers := [], selection := .standard
    observability := none
    settings := { Settings.standard with
      variant := some "data_analysis"
      agents := [⟨"data-stats", "statistics", "analyzer", "eu-west-1", defaultProfile⟩] } }

theorem Settings.assembly_met :
    Manifest.crowded.validate = .ok () ∧
    (Manifest.crowded.override fun _ => none).settings.assemble Manifest.crowded.name [] =
      .error (.duplicateAgent "data-stats") ∧
    ((Manifest.crowded.override fun _ => none).settings.Unknown (.duplicateAgent "data-stats") ∨
      ∃ a ∈ Manifest.crowded.settings.agents, a.id ∈ Manifest.crowded.settings.seats.map (·.id) ∧
        SwarmError.duplicateAgent "data-stats" = .duplicateAgent a.id) := by
  have hvalid : Manifest.crowded.validate = .ok () := by rfl
  have hrefused : (Manifest.crowded.override fun _ => none).settings.assemble Manifest.crowded.name [] =
      .error (.duplicateAgent "data-stats") := by rfl
  exact ⟨hvalid, hrefused, Settings.assembly.2.2 _ _ _ _ hvalid hrefused⟩

end AgentSwarm
