/-
**Ordered members.**

A list of members whose keys ascend holds every key once, so it is known from its keys and from what
is looked up under them.  Setting a member keeps the order.

Main definitions:

* `AgentSwarm.Ascending` — the keys ascend.

Main results:

* `AgentSwarm.Ascending.insertMember` — setting a member keeps the order;
* `AgentSwarm.perm_insertMember` — a new member is added to the others;
* `AgentSwarm.Ascending.lookup_eq_some` — a member is found under its key.
-/

import AgentSwarm.Json.Basic
import Mathlib.Data.String.Basic
import Mathlib.Data.List.Sort

set_option relaxedAutoImplicit false
set_option autoImplicit false

namespace AgentSwarm

variable {A : Type} {key : String} {value : A} {members : List (String × A)}

/-- The keys of the members ascend. -/
def Ascending (members : List (String × A)) : Prop := (members.map Prod.fst).Pairwise (· < ·)

/-- A new member is added to the others. -/
theorem perm_insertMember (h : key ∉ members.map Prod.fst) :
    (insertMember key value members).Perm ((key, value) :: members) := by
  induction members with
  | nil => exact .refl _
  | cons m rest ih =>
      obtain ⟨k, v⟩ := m
      simp only [List.map_cons, List.mem_cons, not_or] at h
      simp only [insertMember, h.1, if_false]
      split
      · exact .refl _
      · exact ((ih h.2).cons (k, v)).trans (.swap _ _ _)

/-- Who is among the members after one was set is that one or was among them before. -/
theorem eq_or_mem_of_mem_insertMember {m : String × A} (h : m ∈ insertMember key value members) :
    m = (key, value) ∨ m ∈ members := by
  induction members with
  | nil => exact .inl (by simpa [insertMember] using h)
  | cons n rest ih =>
      obtain ⟨k, v⟩ := n
      simp only [insertMember] at h
      split at h
      · exact List.mem_cons.1 h
      · split at h
        · exact (List.mem_cons.1 h).imp_right (List.mem_cons_of_mem _)
        · rcases List.mem_cons.1 h with rfl | h
          · exact .inr (by simp)
          · exact (ih h).imp_right (List.mem_cons_of_mem _)

/-- After one was set there are members. -/
theorem insertMember_ne_nil : insertMember key value members ≠ [] := by
  cases members with
  | nil => simp [insertMember]
  | cons m rest =>
      simp only [insertMember]
      split
      · simp
      · split <;> simp

/-- The keys after a member was set. -/
theorem mem_keys_insertMember {k : String} :
    k ∈ (insertMember key value members).map Prod.fst ↔ k = key ∨ k ∈ members.map Prod.fst := by
  induction members with
  | nil => simp [insertMember]
  | cons m rest ih =>
      obtain ⟨k', v⟩ := m
      simp only [insertMember]
      split
      · simp
      · split
        next he => simp [he]
        next =>
            rw [List.map_cons, List.mem_cons, ih, List.map_cons, List.mem_cons]
            exact or_left_comm

/-- **Setting a member keeps the order.** -/
theorem Ascending.insertMember (h : Ascending members) :
    Ascending (insertMember key value members) := by
  induction members with
  | nil => simp [Ascending, AgentSwarm.insertMember]
  | cons m rest ih =>
      obtain ⟨k, v⟩ := m
      obtain ⟨hhead, htail⟩ := List.pairwise_cons.1 h
      simp only [AgentSwarm.insertMember]
      split
      next hlt =>
          refine List.pairwise_cons.2 ⟨?_, h⟩
          intro k' hk'
          rcases List.mem_cons.1 hk' with rfl | hk'
          · exact hlt
          · exact lt_trans hlt (hhead k' hk')
      next hlt =>
          split
          next he =>
              subst he
              exact List.pairwise_cons.2 ⟨hhead, htail⟩
          next hne =>
              refine List.pairwise_cons.2 ⟨?_, ih htail⟩
              intro k' hk'
              rcases mem_keys_insertMember.1 hk' with rfl | hk'
              · exact lt_of_le_of_ne (not_lt.1 hlt) (Ne.symm hne)
              · exact hhead k' hk'

/-- Lists of members in order with the same keys have them in the same order. -/
theorem Ascending.keys_eq {B : Type} {others : List (String × B)} (h : Ascending members)
    (h' : Ascending others) (hp : (members.map Prod.fst).Perm (others.map Prod.fst)) :
    members.map Prod.fst = others.map Prod.fst :=
  hp.eq_of_pairwise (fun _ _ _ _ hab hba => absurd hba (lt_asymm hab)) h h'

/-- What is found under a key is a member. -/
theorem mem_of_lookup_eq_some (h : members.lookup key = some value) : (key, value) ∈ members := by
  obtain ⟨before, after, rfl, -⟩ := List.lookup_eq_some_iff.1 h
  simp

/-- A member is found under its key when no key is there twice. -/
theorem lookup_eq_some_of_nodup (hkeys : (members.map Prod.fst).Nodup)
    (hm : (key, value) ∈ members) : members.lookup key = some value := by
  induction members with
  | nil => simp at hm
  | cons m rest ih =>
      obtain ⟨k, v⟩ := m
      obtain ⟨hhead, htail⟩ := List.nodup_cons.1 hkeys
      rcases List.mem_cons.1 hm with he | hm
      · obtain ⟨rfl, rfl⟩ := Prod.mk.inj he
        simp
      · have hmem : key ∈ rest.map Prod.fst := List.mem_map.2 ⟨_, hm, rfl⟩
        have hne : (key == k) = false := by
          rw [beq_eq_false_iff_ne]
          rintro rfl
          exact hhead hmem
        simpa [List.lookup_cons, hne] using ih htail hm

/-- **A member is found under its key.** -/
theorem Ascending.lookup_eq_some (h : Ascending members) (hm : (key, value) ∈ members) :
    members.lookup key = some value :=
  lookup_eq_some_of_nodup (h.imp ne_of_lt) hm

theorem lookup_eq_none_of_not_mem_keys (h : key ∉ members.map Prod.fst) :
    members.lookup key = none :=
  List.lookup_eq_none_iff.2 fun m hm => by
    simpa using fun he : key = m.1 => h (List.mem_map.2 ⟨m, hm, he.symm⟩)

theorem lookup_map_values {B : Type} (f : A → B) :
    (members.map fun m => (m.1, f m.2)).lookup key = (members.lookup key).map f := by
  induction members with
  | nil => rfl
  | cons m rest ih =>
      rw [List.map_cons, List.lookup_cons, List.lookup_cons, ih]
      cases key == m.1 <;> rfl

/-- What is made of members with the same keys is the same when it is so key by key. -/
theorem map_eq_of_keys_eq {B C : Type} {others : List (String × B)} {f : String × A → C}
    {g : String × B → C} (hkeys : members.map Prod.fst = others.map Prod.fst)
    (h : ∀ m ∈ members, ∀ o ∈ others, m.1 = o.1 → f m = g o) : members.map f = others.map g := by
  induction members generalizing others with
  | nil =>
      obtain rfl := List.map_eq_nil_iff.1 hkeys.symm
      rfl
  | cons m rest ih =>
      cases others with
      | nil => simp at hkeys
      | cons o others =>
          obtain ⟨hkey, hkeys⟩ := List.cons_eq_cons.1 hkeys
          rw [List.map_cons, List.map_cons, h m (by simp) o (by simp) hkey]
          rw [ih hkeys fun m hm o ho =>
            h m (List.mem_cons_of_mem _ hm) o (List.mem_cons_of_mem _ ho)]

end AgentSwarm
