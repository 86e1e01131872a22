/-
**When values are equal.**

Two values are equal when they are of one kind, hold the same thing, and what they are made of is
equal: arrays place by place, objects key by key, in whatever order the members are.  Only what it
means for two numbers to be equal is left open.  For well-formed values this is what the comparison
of values computes, with the two zeros of floating point as one number; and it is the identity of
values when numbers are equal only if they are the same.

Main definitions:

* `AgentSwarm.JsonOf.Alike` — equal values, for a given equality of their numbers.

Main results:

* `AgentSwarm.Ascending.forall₂_iff` — members in order agree one by one when they agree key by key;
* `AgentSwarm.JsonOf.same_iff_alike` — **the comparison of values is equality**;
* `AgentSwarm.JsonOf.eq_iff_alike` — values whose numbers are the same are the same;
* `AgentSwarm.JsonOf.alike_congr` — only the equality of finite numbers matters;
* `AgentSwarm.JsonOf.same_iff_eq` — when numbers are compared exactly, so are values.
-/

import AgentSwarm.Proofs.Json.Compact
import Mathlib.Data.List.Forall2

set_option relaxedAutoImplicit false
set_option autoImplicit false

namespace AgentSwarm

/-! ### Members in order -/

section Members

variable {A : Type} {P : A → A → Prop} {members others : List (String × A)}

theorem mem_keys {k : String} {v : A} (h : (k, v) ∈ members) : k ∈ members.map Prod.fst :=
  List.mem_map.2 ⟨_, h, rfl⟩

/-- No later member has the key of the first one. -/
theorem Ascending.head_notMem {k : String} {v w : A} (h : Ascending ((k, v) :: members)) :
    (k, w) ∉ members := fun hw => lt_irrefl k ((List.pairwise_cons.1 h).1 k (mem_keys hw))

theorem keys_eq_of_forall₂ (h : List.Forall₂ (fun m o => m.1 = o.1 ∧ P m.2 o.2) members others) :
    members.map Prod.fst = others.map Prod.fst := by
  induction h with
  | nil => rfl
  | cons hm _ ih => rw [List.map_cons, List.map_cons, hm.1, ih]

/-- Members with the same keys agree one by one when those of one key do. -/
theorem forall₂_of_keys_eq (hkeys : members.map Prod.fst = others.map Prod.fst)
    (h : ∀ k v w, (k, v) ∈ members → (k, w) ∈ others → P v w) :
    List.Forall₂ (fun m o => m.1 = o.1 ∧ P m.2 o.2) members others := by
  induction members generalizing others with
  | nil =>
      obtain rfl := List.map_eq_nil_iff.1 hkeys.symm
      exact .nil
  | cons m rest ih =>
      cases others with
      | nil => cases hkeys
      | cons o others =>
          obtain ⟨k, v⟩ := m
          obtain ⟨k', w⟩ := o
          obtain ⟨hkey, hrest⟩ := List.cons_eq_cons.1 hkeys
          obtain rfl : k = k' := hkey
          exact .cons ⟨rfl, h k v w List.mem_cons_self List.mem_cons_self⟩
            (ih hrest fun j u u' hu hu' =>
              h j u u' (List.mem_cons_of_mem _ hu) (List.mem_cons_of_mem _ hu'))

/-- **Members in order agree one by one when they agree key by key.** -/
theorem Ascending.forall₂_iff (h : Ascending members) (h' : Ascending others) :
    List.Forall₂ (fun m o => m.1 = o.1 ∧ P m.2 o.2) members others ↔
      (∀ k, k ∈ members.map Prod.fst ↔ k ∈ others.map Prod.fst) ∧
        ∀ k v w, (k, v) ∈ members → (k, w) ∈ others → P v w := by
  constructor
  · intro hall
    have hkeys := keys_eq_of_forall₂ hall
    refine ⟨fun k => by rw [hkeys], ?_⟩
    induction hall with
    | nil => exact fun _ _ _ hv => absurd hv List.not_mem_nil
    | @cons m o ms os hm _ ih =>
        obtain ⟨j, u⟩ := m
        obtain ⟨j', u'⟩ := o
        obtain ⟨rfl, hu⟩ : j = j' ∧ P u u' := hm
        intro k v w hv hw
        rcases List.mem_cons.1 hv with hfirst | hlater <;>
          rcases List.mem_cons.1 hw with hfirst' | hlater'
        · obtain ⟨rfl, rfl⟩ := Prod.mk.inj hfirst
          obtain ⟨-, rfl⟩ := Prod.mk.inj hfirst'
          exact hu
        · obtain ⟨rfl, rfl⟩ := Prod.mk.inj hfirst
          exact absurd hlater' h'.head_notMem
        · obtain ⟨rfl, rfl⟩ := Prod.mk.inj hfirst'
          exact absurd hlater h.head_notMem
        · exact ih (List.pairwise_cons.1 h).2 (List.pairwise_cons.1 h').2
            (List.cons_eq_cons.1 hkeys).2 k v w hlater hlater'
  · rintro ⟨hkeys, hvalues⟩
    have hnodup : ∀ {ms : List (String × A)}, Ascending ms → (ms.map Prod.fst).Nodup :=
      fun hms => hms.imp fun hlt => ne_of_lt hlt
    exact forall₂_of_keys_eq
      (h.keys_eq h' ((List.perm_ext_iff_of_nodup (hnodup h) (hnodup h')).2 hkeys)) hvalues

end Members

namespace JsonOf

variable {R : Type} {eqv eqv' : R → R → Prop} {v w : JsonOf R}

/-! ### Equal values -/

/-- Equal values, when numbers that are no integers are equal as `eqv` says. -/
inductive Alike (eqv : R → R → Prop) : JsonOf R → JsonOf R → Prop
  | null : Alike eqv .null .null
  | bool (b : Bool) : Alike eqv (.bool b) (.bool b)
  | int (n : Int) : Alike eqv (.int n) (.int n)
  | real {x y : R} (h : eqv x y) : Alike eqv (.real x) (.real y)
  | str (s : String) : Alike eqv (.str s) (.str s)
  /-- Arrays are of one length and equal place by place. -/
  | arr {items items' : List (JsonOf R)} (hlength : items.length = items'.length)
      (hitems : ∀ i hi hi', Alike eqv (items.get ⟨i, hi⟩) (items'.get ⟨i, hi'⟩)) :
      Alike eqv (.arr items) (.arr items')
  /-- Objects have the same keys, and equal values under each of them. -/
  | obj {members members' : List (String × JsonOf R)}
      (hkeys : ∀ k, k ∈ members.map Prod.fst ↔ k ∈ members'.map Prod.fst)
      (hmembers : ∀ k v v', (k, v) ∈ members → (k, v') ∈ members' → Alike eqv v v') :
      Alike eqv (.obj members) (.obj members')

@[simp] theorem alike_bool {a b : Bool} : Alike eqv (.bool a) (.bool b) ↔ a = b :=
  ⟨fun h => by cases h; rfl, fun h => h ▸ .bool a⟩

@[simp] theorem alike_int {m n : Int} : Alike eqv (.int m) (.int n) ↔ m = n :=
  ⟨fun h => by cases h; rfl, fun h => h ▸ .int m⟩

@[simp] theorem alike_real {x y : R} : Alike eqv (.real x) (.real y) ↔ eqv x y :=
  ⟨fun h => by cases h; assumption, .real⟩

@[simp] theorem alike_str {s t : String} : Alike eqv (.str s) (.str t) ↔ s = t :=
  ⟨fun h => by cases h; rfl, fun h => h ▸ .str s⟩

theorem alike_arr {items items' : List (JsonOf R)} :
    Alike eqv (.arr items) (.arr items') ↔ List.Forall₂ (Alike eqv) items items' := by
  rw [List.forall₂_iff_get]
  constructor
  · rintro (_ | _ | _ | _ | _ | ⟨hlength, hitems⟩ | _)
    exact ⟨hlength, hitems⟩
  · rintro ⟨hlength, hitems⟩
    exact .arr hlength hitems

theorem alike_obj {members members' : List (String × JsonOf R)} (h : Ascending members)
    (h' : Ascending members') : Alike eqv (.obj members) (.obj members') ↔
      List.Forall₂ (fun m m' => m.1 = m'.1 ∧ Alike eqv m.2 m'.2) members members' := by
  rw [h.forall₂_iff h']
  constructor
  · rintro (_ | _ | _ | _ | _ | _ | ⟨hkeys, hmembers⟩)
    exact ⟨hkeys, hmembers⟩
  · rintro ⟨hkeys, hmembers⟩
    exact .obj hkeys hmembers

/-! ### Equality as it is computed -/

section Same

variable [Scalar R]

theorem sameItems_iff {as bs : List (JsonOf R)} :
    sameItems as bs = true ↔ List.Forall₂ (fun a b => a.same b = true) as bs := by
  induction as generalizing bs with
  | nil => cases bs <;> simp [sameItems]
  | cons a as ih => cases bs <;> simp [sameItems, ih]

theorem sameMembers_iff {as bs : List (String × JsonOf R)} :
    sameMembers as bs = true ↔
      List.Forall₂ (fun a b => a.1 = b.1 ∧ a.2.same b.2 = true) as bs := by
  induction as generalizing bs with
  | nil => cases bs <;> simp [sameMembers]
  | cons a as ih => cases bs <;> simp [sameMembers, ih]

/-- **The comparison of values is equality**, with numbers compared as numbers. -/
theorem same_iff_alike (hv : v.WellFormed) (hw : w.WellFormed) :
    v.same w = true ↔ Alike (fun x y => Scalar.same x y = true) v w := by
  induction hv generalizing w with
  | null =>
      cases hw with
      | null => exact iff_of_true rfl .null
      | bool | int | real | str | arr | obj => exact iff_of_false nofun nofun
  | bool a =>
      cases hw with
      | bool b => rw [same, beq_iff_eq, alike_bool]
      | null | int | real | str | arr | obj => exact iff_of_false nofun nofun
  | int m =>
      cases hw with
      | int n => rw [same, beq_iff_eq, alike_int]
      | null | bool | real | str | arr | obj => exact iff_of_false nofun nofun
  | real x =>
      cases hw with
      | real y => rw [same, alike_real]
      | null | bool | int | str | arr | obj => exact iff_of_false nofun nofun
  | str s =>
      cases hw with
      | str t => rw [same, beq_iff_eq, alike_str]
      | null | bool | int | real | arr | obj => exact iff_of_false nofun nofun
  | arr items hitems ih =>
      cases hw with
      | arr items' hitems' =>
          rw [same, sameItems_iff, alike_arr, List.forall₂_iff_zip, List.forall₂_iff_zip]
          refine and_congr_right fun _ => forall₂_congr fun a b => forall_congr' fun hab => ?_
          obtain ⟨ha, hb⟩ := List.of_mem_zip hab
          exact ih a ha (hitems' b hb)
      | null | bool | int | real | str | obj => exact iff_of_false nofun nofun
  | obj members horder hmembers ih =>
      cases hw with
      | obj members' horder' hmembers' =>
          rw [same, sameMembers_iff, alike_obj horder horder', List.forall₂_iff_zip,
            List.forall₂_iff_zip]
          refine and_congr_right fun _ => forall₂_congr fun a b => forall_congr' fun hab => ?_
          obtain ⟨ha, hb⟩ := List.of_mem_zip hab
          exact and_congr_right fun _ => ih a ha (hmembers' b hb)
      | null | bool | int | real | str | arr => exact iff_of_false nofun nofun

/-- **Only the equality of finite numbers matters.** -/
theorem Alike.imp (h : ∀ x y, Scalar.isFinite x = true → Scalar.isFinite y = true →
    eqv x y → eqv' x y) (hv : v.WellFormed) (hw : w.WellFormed) (halike : Alike eqv v w) :
    Alike eqv' v w := by
  induction halike with
  | null => exact .null
  | bool b => exact .bool b
  | int n => exact .int n
  | real hxy =>
      cases hv with
      | real _ hx =>
          cases hw with
          | real _ hy => exact .real (h _ _ hx hy hxy)
  | str s => exact .str s
  | arr hlength _ ih =>
      cases hv with
      | arr items hitems =>
          cases hw with
          | arr items' hitems' =>
              exact .arr hlength fun i hi hi' =>
                ih i hi hi' (hitems _ (List.get_mem _ _)) (hitems' _ (List.get_mem _ _))
  | obj hkeys _ ih =>
      cases hv with
      | obj members _ hmembers =>
          cases hw with
          | obj members' _ hmembers' =>
              exact .obj hkeys fun k u u' hu hu' =>
                ih k u u' hu hu' (hmembers _ hu) (hmembers' _ hu')

theorem alike_congr (h : ∀ x y, Scalar.isFinite x = true → Scalar.isFinite y = true →
    (eqv x y ↔ eqv' x y)) (hv : v.WellFormed) (hw : w.WellFormed) :
    Alike eqv v w ↔ Alike eqv' v w :=
  ⟨.imp (fun x y hx hy => (h x y hx hy).1) hv hw, .imp (fun x y hx hy => (h x y hx hy).2) hv hw⟩

theorem Alike.refl (h : ∀ x, Scalar.isFinite x = true → eqv x x) (hv : v.WellFormed) : Alike eqv v v := by
  induction hv with
  | null => exact .null
  | bool b => exact .bool b
  | int n => exact .int n
  | real x hx => exact .real (h x hx)
  | str s => exact .str s
  | arr items _ ih => exact alike_arr.2 (List.forall₂_same.2 ih)
  | obj members horder _ ih =>
      exact (alike_obj horder horder).2 (List.forall₂_same.2 fun m hm => ⟨rfl, ih m hm⟩)

theorem Alike.eq (h : Alike Eq v w) (hv : v.WellFormed) (hw : w.WellFormed) : v = w := by
  induction h with
  | null | bool | int | str => rfl
  | real h => rw [h]
  | arr hlength _ ih =>
      cases hv with
      | arr items hitems =>
          cases hw with
          | arr items' hitems' =>
              exact congrArg JsonOf.arr (List.ext_get hlength fun i hi hi' =>
                ih i hi hi' (hitems _ (List.get_mem _ _)) (hitems' _ (List.get_mem _ _)))
  | obj hkeys _ ih =>
      cases hv with
      | obj members horder hmembers =>
          cases hw with
          | obj members' horder' hmembers' =>
              have hall := (horder.forall₂_iff horder').2 ⟨hkeys, fun k u u' hu hu' =>
                ih k u u' hu hu' (hmembers _ hu) (hmembers' _ hu')⟩
              have hsame := hall.imp fun m m' h => Prod.ext h.1 h.2
              rw [List.forall₂_eq_eq_eq] at hsame
              rw [hsame]

/-- **Values are the same when they are equal** and their numbers are the same. -/
theorem eq_iff_alike (hv : v.WellFormed) (hw : w.WellFormed) : v = w ↔ Alike Eq v w :=
  ⟨fun h => h ▸ .refl (fun _ _ => rfl) hv, fun h => h.eq hv hw⟩

/-! ### Exact numbers

Where every number is the same as itself only, so is every value, well-formed or not. -/

mutual

theorem same_refl (h : ∀ x : R, Scalar.same x x = true) : ∀ v : JsonOf R, v.same v = true
  | .null => rfl
  | .bool b => beq_self_eq_true b
  | .int n => beq_self_eq_true n
  | .real x => h x
  | .str s => beq_self_eq_true s
  | .arr items => sameItems_refl h items
  | .obj members => sameMembers_refl h members

theorem sameItems_refl (h : ∀ x : R, Scalar.same x x = true) :
    ∀ items : List (JsonOf R), sameItems items items = true
  | [] => rfl
  | v :: rest => by rw [sameItems, same_refl h v, sameItems_refl h rest, Bool.and_self]

theorem sameMembers_refl (h : ∀ x : R, Scalar.same x x = true) :
    ∀ members : List (String × JsonOf R), sameMembers members members = true
  | [] => rfl
  | (k, v) :: rest => by
      rw [sameMembers, same_refl h v, sameMembers_refl h rest, beq_self_eq_true, Bool.and_self,
        Bool.and_self]

end

mutual

theorem eq_of_same (h : ∀ {x y : R}, Scalar.same x y = true → x = y) :
    ∀ {v w : JsonOf R}, v.same w = true → v = w
  | .null, .null, _ => rfl
  | .bool _, .bool _, hsame => congrArg bool (beq_iff_eq.1 hsame)
  | .int _, .int _, hsame => congrArg int (beq_iff_eq.1 hsame)
  | .real _, .real _, hsame => congrArg real (h hsame)
  | .str _, .str _, hsame => congrArg str (beq_iff_eq.1 hsame)
  | .arr _, .arr _, hsame => congrArg arr (eq_of_sameItems h hsame)
  | .obj _, .obj _, hsame => congrArg obj (eq_of_sameMembers h hsame)

theorem eq_of_sameItems (h : ∀ {x y : R}, Scalar.same x y = true → x = y) :
    ∀ {as bs : List (JsonOf R)}, sameItems as bs = true → as = bs
  | [], [], _ => rfl
  | a :: as, b :: bs, hsame => by
      rw [sameItems, Bool.and_eq_true] at hsame
      rw [eq_of_same h hsame.1, eq_of_sameItems h hsame.2]

theorem eq_of_sameMembers (h : ∀ {x y : R}, Scalar.same x y = true → x = y) :
    ∀ {as bs : List (String × JsonOf R)}, sameMembers as bs = true → as = bs
  | [], [], _ => rfl
  | (k, a) :: as, (k', b) :: bs, hsame => by
      simp only [sameMembers, Bool.and_eq_true, beq_iff_eq] at hsame
      rw [hsame.1.1, eq_of_same h hsame.1.2, eq_of_sameMembers h hsame.2]

end

/-- **Over exact numbers the comparison of values is the identity.** -/
theorem same_iff_eq (h : ∀ {x y : R}, Scalar.same x y = true ↔ x = y) :
    v.same w = true ↔ v = w :=
  ⟨eq_of_same h.1, fun he => he ▸ same_refl (fun _ => h.2 rfl) v⟩

end Same

end JsonOf

end AgentSwarm
