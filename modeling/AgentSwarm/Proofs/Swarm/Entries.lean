/-
**What the books of a swarm say of its agents.**

The books have an entry for every agent: its id, its status and its history.  Changes of the roster
and the results of tasks change the entries in a simple way, whatever else they do.  An entry agrees
with the operations of the swarm when its history is that of all the calls the agent served in.

Main definitions:

* `AgentSwarm.Entry`, `AgentSwarm.Roster.entries` — what the books say of an agent, and of all;
* `AgentSwarm.Agent.badge` — the id and the status of an agent, which results do not change;
* `AgentSwarm.Entry.after` — an entry after the results of a task;
* `AgentSwarm.IsRecordOf` — a record tells of the result of a completed call;
* `AgentSwarm.Agent.Accords`, `AgentSwarm.Entry.Kept` — what the books say agrees with the
  operations, as it is read off them and as it is proved.

Main results:

* `AgentSwarm.Roster.entries_add`, `AgentSwarm.Roster.entries_setStatus`,
  `AgentSwarm.Roster.entries_recordResults` — the entries after a change;
* `AgentSwarm.Entry.Kept.unserved`, `AgentSwarm.Entry.Kept.serve` — **operations keep the entries of
  those who do not serve and of those who do**;
* `AgentSwarm.Entry.Kept.accords` — a history of all calls keeps the last of them.
-/

import AgentSwarm.Proofs.Agent.History
import AgentSwarm.Proofs.Swarm.Life
import Mathlib.Data.List.Forall2

set_option relaxedAutoImplicit false
set_option autoImplicit false

namespace AgentSwarm

/-! ### The entries of a roster -/

/-- What the books say of an agent. -/
structure Entry where
  id : String
  status : Status
  history : History Float

/-- The entry of an agent. -/
def Agent.entry (a : Agent) : Entry := ⟨a.id, a.status, a.history⟩

/-- The entries of all agents. -/
def Roster.entries (r : Roster) : List Entry := r.agents.map (·.entry)

/-- The id and the status of an agent. -/
def Agent.badge (a : Agent) : String × Status := (a.id, a.status)

/-- The entry after the results of a task. -/
def Entry.after (taskId : String) (results : List (String × AgentResult Float)) (e : Entry) :
    Entry :=
  match (results.lookup e.id).bind (Swarm.recordOf taskId) with
  | some record => { e with history := e.history.record record }
  | none => e

namespace Entry

variable {taskId : String} {results : List (String × AgentResult Float)} {e : Entry}

/-- The failure of a disabled agent is not recorded. -/
theorem after_of_disabled {r : AgentResult Float} (h : results.lookup e.id = some r)
    (hr : r.failure?.map Prod.snd = some .agentDisabled) : e.after taskId results = e := by
  simp [after, h, Swarm.recordOf, hr]

/-- Every other result is recorded. -/
theorem after_of_recorded {r : AgentResult Float} (h : results.lookup e.id = some r)
    (hr : r.failure?.map Prod.snd ≠ some .agentDisabled) : e.after taskId results =
      { e with history := e.history.record ⟨taskId, r.isSuccess, r.confidence,
        r.metrics.executionMillis, r.finishedAt⟩ } := by
  simp [after, h, Swarm.recordOf, hr]

end Entry

namespace Roster

variable {r r' : Roster} {id : String} {status : Status}

theorem ids_eq (r : Roster) : r.ids = r.entries.map (·.id) := by
  simp [ids, entries, Agent.entry]

theorem ids_eq_badges (r : Roster) : r.ids = (r.agents.map (·.badge)).map Prod.fst := by
  simp [ids, Agent.badge]

/-- Who joins comes last, and nothing changes for the others. -/
theorem entries_add {agent : Agent} (h : r.add agent = .ok r') :
    r'.entries = r.entries ++ [agent.entry] := by
  unfold add at h
  split at h
  next => cases h
  next =>
      obtain rfl := Except.ok.inj h
      simp [entries, linkPeers, Agent.entry]

/-- Setting a status changes the entry of one agent. -/
theorem entries_setStatus (hids : r.ids.Nodup) (h : r.setStatus id status = .ok r') :
    r'.entries = r.entries.map fun e => if e.id = id then { e with status } else e := by
  unfold setStatus at h
  split at h
  next =>
      obtain rfl := Except.ok.inj h
      simp only [entries, List.map_map]
      simp only [ids] at hids
      generalize r.agents = agents at hids
      induction agents with
      | nil => rfl
      | cons a rest ih =>
          obtain ⟨hnew, hrest⟩ := List.nodup_cons.1 hids
          simp only [modifyFirst]
          split
          next he =>
              -- the first agent of the id is the only one
              have hothers : rest.map
                  ((fun e : Entry => if e.id = id then { e with status } else e) ∘ Agent.entry) =
                    rest.map Agent.entry := by
                refine List.map_congr_left fun b hb => if_neg fun hid => hnew ?_
                exact List.mem_map.2 ⟨b, hb, hid.trans he.symm⟩
              rw [List.map_cons, List.map_cons, hothers]
              simp [Agent.entry, he]
          next hne =>
              rw [List.map_cons, List.map_cons, ih hrest]
              simp [Agent.entry, hne]
  next => cases h

/-- Results change the histories of their agents. -/
theorem entries_recordResults (taskId : String) (results : List (String × AgentResult Float))
    (r : Roster) :
    (Swarm.recordResults taskId results r).entries = r.entries.map (·.after taskId results) := by
  simp only [entries, Swarm.recordResults, List.map_map]
  refine List.map_congr_left fun a _ => ?_
  simp only [Function.comp_apply, Entry.after, Agent.entry]
  cases (results.lookup a.id).bind (Swarm.recordOf taskId) <;> rfl

/-- Results change no id and no status. -/
theorem badges_recordResults (taskId : String) (results : List (String × AgentResult Float))
    (r : Roster) : (Swarm.recordResults taskId results r).agents.map (·.badge) =
      r.agents.map (·.badge) := by
  simp only [Swarm.recordResults, List.map_map]
  refine List.map_congr_left fun a _ => ?_
  simp only [Function.comp_apply]
  split <;> rfl

end Roster

/-! ### Agents -/

/-- A record of an agent tells of a completed call: it has the id of the task on which the call
began, and the success, confidence, duration and time of the result that the agent had in it. -/
inductive IsRecordOf (ops : List Operation) (id : String) :
    Nat × List (String × AgentResult Float) → TaskRecord Float → Prop
  | intro {call : Nat} {results : List (String × AgentResult Float)} {taskId : String}
      {r : AgentResult Float} : (call, taskId) ∈ begunIn ops → results.lookup id = some r →
      IsRecordOf ops id (call, results)
        ⟨taskId, r.isSuccess, r.confidence, r.metrics.executionMillis, r.finishedAt⟩

/-- **What the books say of an agent agrees with the operations**: its status is the last that was
set, its history counts the calls it served in and keeps the last of them, as many as fit the
window. -/
structure Agent.Accords (size : Nat) (ops : List Operation) (a : Agent) : Prop where
  standing : AgentSwarm.standing a.id ops = some a.status
  window : a.history.window = max size 1
  total : a.history.total = (served a.id ops).length
  records : List.Forall₂ (IsRecordOf ops a.id) ((served a.id ops).rtake (max size 1))
    a.history.records

/-- The entry of an agent whose history is that of all the calls it served in. -/
structure Entry.Kept (size : Nat) (ops : List Operation) (e : Entry) : Prop where
  standing : AgentSwarm.standing e.id ops = some e.status
  history : ∃ records, List.Forall₂ (IsRecordOf ops e.id) (served e.id ops) records ∧
    e.history = (History.empty size).recordAll records

section

variable {size : Nat} {ops more : List Operation} {d : Operation} {id : String} {e : Entry}
  {done : Nat × List (String × AgentResult Float)} {record : TaskRecord Float}

theorem IsRecordOf.mono (h : IsRecordOf ops id done record) :
    IsRecordOf (ops ++ more) id done record := by
  cases h with
  | intro hbegan hr =>
      refine .intro ?_ hr
      rw [begunIn, List.filterMap_append]
      exact List.mem_append_left _ hbegan

namespace Entry.Kept

/-- A history of all calls keeps the last of them. -/
theorem accords {a : Agent} (h : a.entry.Kept size ops) : a.Accords size ops := by
  obtain ⟨records, hall, he⟩ := h.history
  rw [show a.entry.history = a.history from rfl] at he
  refine ⟨h.standing, ?_, ?_, ?_⟩
  · rw [he, History.window_recordAll]
    rfl
  · rw [he, History.total_recordAll_empty, ← hall.length_eq]
    rfl
  · rw [he, History.records_recordAll_empty, List.rtake, List.rtake, ← hall.length_eq]
    exact List.forall₂_drop _ hall

/-- Who joins has served in nothing. -/
theorem joined (size : Nat) (h : id ∉ joinedIn ops) :
    (⟨id, .active, .empty size⟩ : Entry).Kept size (ops ++ [.joined id]) := by
  obtain ⟨hstanding, hserved⟩ := served_of_not_joined h
  refine ⟨standing_concat.trans (if_pos rfl), [], ?_, rfl⟩
  rw [served_concat, hserved, hstanding]
  exact .nil

/-- An agent that does not serve in anything keeps its history. -/
theorem unserved {status : Status} (h : e.Kept size ops)
    (hstanding : d.standing e.id (some e.status) = some status)
    (hserved : e.status = .active → d.completed? = none) :
    ({ e with status } : Entry).Kept size (ops ++ [d]) := by
  obtain ⟨records, hall, he⟩ := h.history
  have hnone : (if AgentSwarm.standing e.id ops = some .active then d.completed?.toList else []) =
      [] := by
    rw [h.standing]
    split
    next hactive => rw [hserved (Option.some.inj hactive)]; rfl
    next => rfl
  refine ⟨standing_concat.trans (h.standing ▸ hstanding), records, ?_, he⟩
  rw [served_concat, hnone, List.append_nil]
  exact hall.imp fun _ _ => IsRecordOf.mono

/-- An active agent serves in a call that completes. -/
theorem serve {call : Nat} {results : List (String × AgentResult Float)} (h : e.Kept size ops)
    (hactive : e.status = .active) (hrecord : IsRecordOf ops e.id (call, results) record) :
    ({ e with history := e.history.record record } : Entry).Kept size
      (ops ++ [.completed call results]) := by
  obtain ⟨records, hall, he⟩ := h.history
  refine ⟨standing_concat.trans h.standing, records ++ [record], ?_, ?_⟩
  · rw [served_concat, h.standing, hactive, if_pos rfl]
    exact List.rel_append (hall.imp fun _ _ => IsRecordOf.mono) (.cons hrecord.mono .nil)
  · rw [History.recordAll_concat, ← he]

end Entry.Kept

end

end AgentSwarm
