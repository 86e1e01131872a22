/-
**Changes of a roster.**

A roster is changed by adding agents and by setting their statuses.  A change that fails leaves it as
it was, so what a roster holds that was empty at first is said by the changes that were made: who was
added, in order, and the status that each was given last.  The peers that an agent brings along do
not count; every agent that is added links all of them anew.

Main definitions:

* `AgentSwarm.tried`, `AgentSwarm.made` — what a change leaves that may fail, and which changes of
  several are made;
* `AgentSwarm.Roster.Change`, `AgentSwarm.Roster.Change.inPlace` — changes, and how they are made step
  by step;
* `AgentSwarm.Roster.Reflects` — what changes make of a roster.

Main results:

* `AgentSwarm.made_induction` — what every change keeps that is made;
* `AgentSwarm.Roster.Change.run_inPlace` — **what fails leaves the roster as it was**;
* `AgentSwarm.Roster.reflects_made` — **the roster reflects the changes that were made**.
-/

import AgentSwarm.Roster
import Mathlib.Data.List.Forall2

set_option relaxedAutoImplicit false
set_option autoImplicit false

namespace AgentSwarm

/-! ### Changes that may fail -/

section

variable {S C E : Type} {apply : C → S → Except E S} {s s' : S} {c : C}

/-- What is left when a change was tried: one that fails leaves everything as it was. -/
def tried (apply : C → S → Except E S) (s : S) (c : C) : S :=
  match apply c s with
  | .ok s' => s'
  | .error _ => s

/-- The changes that are made when some are tried one after another. -/
def made (apply : C → S → Except E S) : S → List C → List C
  | _, [] => []
  | s, c :: rest =>
    match apply c s with
    | .ok s' => c :: made apply s' rest
    | .error _ => made apply s rest

theorem tried_of_ok (h : apply c s = .ok s') : tried apply s c = s' := by
  rw [tried, h]

theorem tried_of_error {e : E} (h : apply c s = .error e) : tried apply s c = s := by
  rw [tried, h]

theorem made_cons_of_ok (h : apply c s = .ok s') (rest : List C) :
    made apply s (c :: rest) = c :: made apply s' rest := by
  rw [made, h]

theorem made_cons_of_error {e : E} (h : apply c s = .error e) (rest : List C) :
    made apply s (c :: rest) = made apply s rest := by
  rw [made, h]

/-- **What every change keeps that is made** holds after all of them. -/
theorem made_induction {motive : List C → S → Prop}
    (step : ∀ done s c s', motive done s → apply c s = .ok s' → motive (done ++ [c]) s')
    (changes : List C) {done : List C} (start : motive done s) :
    motive (done ++ made apply s changes) (changes.foldl (tried apply) s) := by
  induction changes generalizing done s with
  | nil => rwa [made, List.append_nil]
  | cons c rest ih =>
      rw [List.foldl_cons]
      cases h : apply c s with
      | ok s' =>
          rw [tried_of_ok h, made_cons_of_ok h, List.append_cons]
          exact ih (step done s c s' start h)
      | error e =>
          rw [tried_of_error h, made_cons_of_error h]
          exact ih start

end

/-- A change in place begins by looking at the state. -/
theorem run_get_bind {S E A : Type} (f : S → ExceptT E (StateM S) A) (s : S) :
    (get >>= f).run.run s = (f s).run.run s := rfl

namespace Roster

/-! ### Changes -/

/-- A change of a roster. -/
inductive Change where
  | add (agent : Agent)
  | setStatus (id : String) (status : Status)

namespace Change

/-- Who is added. -/
def added? : Change → Option Agent
  | add agent => some agent
  | setStatus _ _ => none

/-- The status that an agent is given. -/
def statusFor? (id : String) : Change → Option Status
  | add _ => none
  | setStatus other status => if other = id then some status else none

/-- What comes of a change. -/
def apply : Change → Roster → Except SwarmError Roster
  | add agent, r => r.add agent
  | setStatus id status, r => r.setStatus id status

/-- How a change is made in place: the agent is put at the end before the peers are linked. -/
def inPlace : Change → ExceptT SwarmError (StateM Roster) Unit
  | add agent => do
      if (← get).contains agent.id then throw (.duplicateAgent agent.id)
      modify fun r => ⟨r.agents ++ [agent]⟩
      modify fun r => ⟨linkPeers r.agents⟩
  | setStatus id status => do
      if !(← get).contains id then throw (.unknownAgent id)
      modify fun r => ⟨modifyFirst id (fun a => { a with status }) r.agents⟩

/-- **What fails leaves the roster as it was**, although it is changed in place. -/
theorem run_inPlace (c : Change) (r : Roster) : c.inPlace.run.run r =
    match c.apply r with
    | .ok r' => (.ok (), r')
    | .error e => (.error e, r) := by
  cases c with
  | add agent =>
      rw [inPlace, run_get_bind, apply, Roster.add]
      by_cases h : r.contains agent.id = true
      · rw [if_pos h, if_pos h]
        rfl
      · rw [if_neg h, if_neg h]
        rfl
  | setStatus id status =>
      rw [inPlace, run_get_bind, apply, Roster.setStatus]
      by_cases h : r.contains id = true
      · rw [if_pos h, if_neg (by simp [h])]
        rfl
      · rw [if_neg h, if_pos (by simp [h])]
        rfl

end Change

/-! ### Who can be added, and whose status can be set -/

variable {r r' : Roster} {agent : Agent} {id : String} {status : Status} {done : List Change}

theorem contains_iff : r.contains id = true ↔ id ∈ r.ids := by
  simp [contains]

/-- Who is added is new. -/
theorem add_eq_ok_iff : r.add agent = .ok r' ↔
    agent.id ∉ r.ids ∧ r' = ⟨linkPeers (r.agents ++ [agent])⟩ := by
  rw [add, ← contains_iff]
  by_cases h : r.contains agent.id = true
  · simp [h]
  · simp [h, eq_comm]

/-- The status of one who is not there cannot be set. -/
theorem setStatus_eq_error_iff {e : SwarmError} : r.setStatus id status = .error e ↔
    id ∉ r.ids ∧ e = .unknownAgent id := by
  rw [setStatus, ← contains_iff]
  by_cases h : r.contains id = true
  · simp [h]
  · simp [h, eq_comm]

/-- The status of one who is there is set. -/
theorem setStatus_eq_ok_iff : r.setStatus id status = .ok r' ↔
    id ∈ r.ids ∧ r' = ⟨modifyFirst id (fun a => { a with status }) r.agents⟩ := by
  rw [setStatus, ← contains_iff]
  by_cases h : r.contains id = true
  · simp [h, eq_comm]
  · simp [h]

/-- The first agent of an id is the only one. -/
theorem modifyFirst_eq_map {f : Agent → Agent} {agents : List Agent}
    (h : (agents.map (·.id)).Nodup) :
    modifyFirst id f agents = agents.map fun a => if a.id = id then f a else a := by
  induction agents with
  | nil => rfl
  | cons a rest ih =>
      obtain ⟨hfirst, hrest⟩ := List.nodup_cons.1 h
      rw [modifyFirst, List.map_cons]
      split
      next ha =>
          -- nobody behind has the id
          have hsame : rest.map (fun b => if b.id = id then f b else b) = rest := by
            refine (List.map_congr_left fun b hb => if_neg fun hid => hfirst ?_).trans (List.map_id _)
            exact List.mem_map.2 ⟨b, hb, hid.trans ha.symm⟩
          rw [hsame]
      next => rw [ih hrest]

/-- An agent linked to others: who it is linked to depends on the ids only. -/
theorem mem_linkPeers {agents : List Agent} {b : Agent} : b ∈ linkPeers agents ↔
    ∃ a ∈ agents, { a with
      peers := (Text.sortedSet (agents.map (·.id))).filter (· ≠ a.id) } = b :=
  List.mem_map

/-! ### What changes make of a roster -/

/-- The status of an agent after changes: the last one it was given, or else its own. -/
def statusIn (done : List Change) (a : Agent) : Status :=
  (done.filterMap (·.statusFor? a.id)).getLast?.getD a.status

/-- **What changes make of a roster**: the agents that were added, in order, as they were but for
status and peers; the status is the one that was given last, and the peers are all others. -/
structure Reflects (r : Roster) (done : List Change) : Prop where
  nodup : r.ids.Nodup
  agents : List.Forall₂ (fun a b => ∃ peers, b = { a with peers, status := statusIn done a })
    (done.filterMap (·.added?)) r.agents
  ascending : ∀ a ∈ r.agents, a.peers.Pairwise (· < ·)
  mem_peers : ∀ a ∈ r.agents, ∀ id, id ∈ a.peers ↔ id ∈ r.ids ∧ id ≠ a.id
  /-- Nobody is given a status who was not added. -/
  given : ∀ id ∉ r.ids, done.filterMap (·.statusFor? id) = []

theorem reflects_empty : empty.Reflects [] where
  nodup := .nil
  agents := .nil
  ascending := by simp [empty]
  mem_peers := by simp [empty]
  given _ _ := rfl

/-- Adding gives no status. -/
theorem statusIn_concat_add (a b : Agent) : statusIn (done ++ [.add b]) a = statusIn done a := by
  simp [statusIn, Change.statusFor?]

/-- The status that was given last counts. -/
theorem statusIn_concat_setStatus (a : Agent) : statusIn (done ++ [.setStatus id status]) a =
    if a.id = id then status else statusIn done a := by
  by_cases h : id = a.id
  · simp [statusIn, Change.statusFor?, h]
  · simp [statusIn, Change.statusFor?, h, Ne.symm h]

/-- An agent that is added comes last, and all are linked anew. -/
theorem Reflects.add (h : r.Reflects done) (hadd : r.add agent = .ok r') :
    r'.Reflects (done ++ [.add agent]) := by
  obtain ⟨hnew, rfl⟩ := add_eq_ok_iff.1 hadd
  have hids : ids ⟨linkPeers (r.agents ++ [agent])⟩ = r.ids ++ [agent.id] := by
    rw [ids, ids_linkPeers, List.map_append]
    rfl
  refine ⟨?nodup, ?agents, ?ascending, ?mem_peers, ?given⟩
  case nodup =>
      rw [hids]
      refine List.nodup_append.2 ⟨h.nodup, by simp, fun other hother own hown he => hnew ?_⟩
      rwa [← List.mem_singleton.1 hown, ← he]
  case agents =>
      have hown : statusIn (done ++ [.add agent]) agent = agent.status := by
        rw [statusIn_concat_add, statusIn, h.given _ hnew]
        rfl
      rw [List.filterMap_append, linkPeers, List.map_append]
      refine List.rel_append ?_ (.cons ⟨_, by rw [hown]⟩ .nil)
      rw [List.forall₂_map_right_iff]
      refine h.agents.imp fun a b hab => ?_
      obtain ⟨peers, rfl⟩ := hab
      exact ⟨_, by rw [statusIn_concat_add]⟩
  case ascending =>
      intro b hb
      obtain ⟨a, -, rfl⟩ := mem_linkPeers.1 hb
      exact (Text.pairwise_sortedSet _).filter _
  case mem_peers =>
      intro b hb id
      obtain ⟨a, -, rfl⟩ := mem_linkPeers.1 hb
      rw [hids]
      simp [Text.mem_sortedSet, ids]
  case given =>
      intro id hid
      rw [hids, List.mem_append, not_or] at hid
      rw [List.filterMap_append, h.given id hid.1]
      rfl

/-- A status that is set is the last one given. -/
theorem Reflects.setStatus (h : r.Reflects done) (hset : r.setStatus id status = .ok r') :
    r'.Reflects (done ++ [.setStatus id status]) := by
  obtain ⟨hmem, rfl⟩ := setStatus_eq_ok_iff.1 hset
  rw [modifyFirst_eq_map h.nodup]
  have hids : ids ⟨r.agents.map fun a => if a.id = id then { a with status } else a⟩ = r.ids := by
    rw [ids, List.map_map]
    refine List.map_congr_left fun a _ => ?_
    rw [Function.comp_apply]
    split <;> rfl
  have hold : ∀ b ∈ r.agents.map fun a => if a.id = id then { a with status } else a,
      ∃ a ∈ r.agents, b.id = a.id ∧ b.peers = a.peers := by
    intro b hb
    obtain ⟨a, ha, rfl⟩ := List.mem_map.1 hb
    refine ⟨a, ha, ?_⟩
    split <;> exact ⟨rfl, rfl⟩
  refine ⟨?nodup, ?agents, ?ascending, ?mem_peers, ?given⟩
  case nodup =>
      rw [hids]
      exact h.nodup
  case agents =>
      rw [List.filterMap_append, show [Change.setStatus id status].filterMap (·.added?) = [] from rfl,
        List.append_nil, List.forall₂_map_right_iff]
      refine h.agents.imp fun a b hab => ?_
      obtain ⟨peers, rfl⟩ := hab
      refine ⟨peers, ?_⟩
      rw [statusIn_concat_setStatus]
      split <;> rfl
  case ascending =>
      intro b hb
      obtain ⟨a, ha, -, hpeers⟩ := hold b hb
      rw [hpeers]
      exact h.ascending a ha
  case mem_peers =>
      intro b hb other
      obtain ⟨a, ha, hid, hpeers⟩ := hold b hb
      rw [hids, hid, hpeers]
      exact h.mem_peers a ha other
  case given =>
      intro other hother
      rw [hids] at hother
      have hne : id ≠ other := fun he => hother (he ▸ hmem)
      rw [List.filterMap_append, h.given other hother]
      simp [Change.statusFor?, hne]

/-- **A roster reflects the changes that were made.** -/
theorem reflects_made (changes : List Change) :
    (changes.foldl (tried Change.apply) empty).Reflects (made Change.apply empty changes) := by
  refine made_induction (motive := fun done r => Reflects r done) (fun done r c r' h happly => ?_)
    changes reflects_empty
  cases c with
  | add agent => exact h.add happly
  | setStatus id status => exact h.setStatus happly

example : (([.add (.create "b" "risk" .analyzer "eu" "p" 5), .setStatus "a" .disabled,
    .add { Agent.create "a" "cost" .analyzer "eu" "p" 5 with peers := ["z"] }, .setStatus "b" .disabled,
    .add (.create "b" "ops" .analyzer "us" "p" 5)].foldl (tried Change.apply) empty).agents.map
      fun a => (a.id, a.specialization, a.status, a.peers)) =
    [("b", "risk", .disabled, ["a"]), ("a", "cost", .active, ["b"])] := by
  decide

/-- Nobody is its own peer. -/
theorem Reflects.not_peer_self (h : r.Reflects done) {a : Agent} (ha : a ∈ r.agents) :
    a.id ∉ a.peers := fun hself =>
  ((h.mem_peers a ha a.id).1 hself).2 rfl

/-- Peers are each other's peers. -/
theorem Reflects.peer_symm (h : r.Reflects done) {a b : Agent} (ha : a ∈ r.agents)
    (hb : b ∈ r.agents) : b.id ∈ a.peers ↔ a.id ∈ b.peers := by
  have hida : a.id ∈ r.ids := List.mem_map_of_mem ha
  have hidb : b.id ∈ r.ids := List.mem_map_of_mem hb
  rw [h.mem_peers a ha, h.mem_peers b hb]
  simp [hida, hidb, eq_comm]

end Roster

end AgentSwarm
