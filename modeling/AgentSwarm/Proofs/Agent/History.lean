/-
**What a history keeps.**

A history that began empty and was given some records counts all of them and keeps the last, as many
as its window holds.

Main results:

* `AgentSwarm.History.total_recordAll_empty` — all records are counted;
* `AgentSwarm.History.records_record` — what one more record keeps;
* `AgentSwarm.History.records_recordAll_empty` — **the last records are kept**.
-/

import AgentSwarm.Agent.History
import Mathlib.Data.List.DropRight

set_option relaxedAutoImplicit false
set_option autoImplicit false

namespace AgentSwarm.History

variable {R : Type} {w : Nat} {h : History R} {r : TaskRecord R} {rs : List (TaskRecord R)}

/-- A window of zero counts as one anyway. -/
theorem empty_max (R : Type) (w : Nat) : (empty (max w 1) : History R) = empty w := by
  simp [empty]

theorem recordAll_concat : h.recordAll (rs ++ [r]) = (h.recordAll rs).record r := by
  simp [recordAll]

/-- Records do not change the window. -/
theorem window_recordAll : (h.recordAll rs).window = h.window := by
  induction rs using List.reverseRecOn with
  | nil => rfl
  | append_singleton rs r ih => rw [recordAll_concat, window_record, ih]

/-- All records are counted. -/
theorem total_recordAll_empty : ((empty w).recordAll rs).total = rs.length := by
  induction rs using List.reverseRecOn with
  | nil => rfl
  | append_singleton rs r ih => rw [recordAll_concat, total_record, ih, List.length_append]; rfl

/-- If the last records are kept, they still are when one more comes in. -/
theorem records_record (hw : 0 < h.window) (hkept : h.records = rs.rtake h.window) :
    (h.record r).records = (rs ++ [r]).rtake h.window := by
  obtain ⟨m, hm⟩ : ∃ m, h.window = m + 1 := ⟨h.window - 1, by omega⟩
  have hleft : (if h.records.length = h.window then h.records.drop 1 else h.records) =
      rs.rtake m := by
    rw [hkept, hm]
    simp only [List.rtake, List.length_drop, List.drop_drop]
    -- a full window gives up its oldest record, and without records to give up all are kept
    split
    next hfull => rw [show rs.length - (m + 1) + 1 = rs.length - m by omega]
    next hroom => rw [show rs.length - (m + 1) = rs.length - m by omega]
  rw [record, hleft, hm, List.rtake_concat_succ]

/-- **The last records are kept**, as many as the window holds. -/
theorem records_recordAll_empty : ((empty w).recordAll rs).records = rs.rtake (max w 1) := by
  induction rs using List.reverseRecOn with
  | nil => simp [recordAll, empty]
  | append_singleton rs r ih =>
      have hwindow : ((empty w).recordAll rs).window = max w 1 := window_recordAll
      rw [← hwindow] at ih ⊢
      rw [recordAll_concat]
      exact records_record (by omega) ih

end AgentSwarm.History
