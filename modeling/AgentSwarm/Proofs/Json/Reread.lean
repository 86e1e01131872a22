/-
**Values are read back.**

The compact text of a value is read from front to back.  Behind each value stands a comma, a closing
bracket or the end of the text, so the reader of numbers stops where the number ended; a container is
read element by element, each after its comma.  What a text can hold is bounded by what the reader
accepts: containers may only be nested so deep, and integers have 64 bits.  Whatever was read is
within these bounds, and settling it leaves it there, so a settled value that was read is read back.

Main definitions:

* `AgentSwarm.Json.Legible` — a value that can be read with so many container levels left;
* `AgentSwarm.JsonOf.doubles` — the doubles of a value;
* `AgentSwarm.Json.listed` — the texts of the elements that are left, with their commas;
* `AgentSwarm.Json.Opens` — the text of a value starts here.

Main results:

* `AgentSwarm.Json.legible` — **what is read can be read**;
* `AgentSwarm.Json.Legible.settle`, `AgentSwarm.JsonOf.WellFormed.settle_eq` — settling a value, and
  a value that is settled;
* `AgentSwarm.Json.readValue_chars` — **values are read back**.
-/

import AgentSwarm.Proofs.Json.Numbers

set_option relaxedAutoImplicit false
set_option autoImplicit false

namespace AgentSwarm

/-! ### Doubles of a value -/

namespace JsonOf

variable {R : Type}

mutual

/-- The numbers of a value that are no integers. -/
def doubles : JsonOf R → List R
  | .real x => [x]
  | .arr items => itemsDoubles items
  | .obj members => membersDoubles members
  | _ => []

/-- The numbers of some values. -/
def itemsDoubles : List (JsonOf R) → List R
  | [] => []
  | v :: rest => doubles v ++ itemsDoubles rest

/-- The numbers of the values of some members. -/
def membersDoubles : List (String × JsonOf R) → List R
  | [] => []
  | (_, v) :: rest => doubles v ++ membersDoubles rest

end

theorem mem_itemsDoubles {x : R} {v : JsonOf R} {items : List (JsonOf R)} (hv : v ∈ items)
    (h : x ∈ v.doubles) : x ∈ itemsDoubles items := by
  induction items with
  | nil => cases hv
  | cons w items ih =>
      rw [itemsDoubles, List.mem_append]
      rcases List.mem_cons.1 hv with rfl | hv
      · exact .inl h
      · exact .inr (ih hv)

theorem mem_membersDoubles {x : R} {m : String × JsonOf R} {members : List (String × JsonOf R)}
    (hm : m ∈ members) (h : x ∈ m.2.doubles) : x ∈ membersDoubles members := by
  induction members with
  | nil => cases hm
  | cons n members ih =>
      obtain ⟨k, v⟩ := n
      rw [membersDoubles, List.mem_append]
      rcases List.mem_cons.1 hm with rfl | hm
      · exact .inl h
      · exact .inr (ih hm)

end JsonOf

/-! ### Settled values -/

section Settled

variable {A : Type} {key : String} {value : A} {members : List (String × A)}

/-- A member behind all others is set at the end. -/
theorem insertMember_eq_append (h : ∀ k ∈ members.map Prod.fst, k < key) :
    insertMember key value members = members ++ [(key, value)] := by
  induction members with
  | nil => rfl
  | cons m members ih =>
      obtain ⟨k, v⟩ := m
      have hk : k < key := h k (by simp)
      rw [insertMember, if_neg (lt_asymm hk), if_neg (ne_of_gt hk),
        ih fun k hk => h k (List.mem_cons_of_mem _ hk), List.cons_append]

/-- Members in order are left as they stand. -/
theorem sortMembers_eq (h : Ascending members) : sortMembers members = members := by
  induction members using List.reverseRecOn with
  | nil => rfl
  | append_singleton members m ih =>
      rw [Ascending, List.map_append, List.pairwise_append] at h
      rw [sortMembers, List.foldl_append]
      show insertMember m.1 m.2 (sortMembers members) = _
      rw [ih h.1]
      exact insertMember_eq_append fun k hk => h.2.2 k hk _ (by simp)

/-- A value whose members are in order is settled. -/
theorem JsonOf.WellFormed.settle_eq {R : Type} [Scalar R] {v : JsonOf R} (h : v.WellFormed) :
    v.settle = v := by
  induction h with
  | null | bool | int | real | str => rfl
  | arr items _ ih =>
      rw [JsonOf.settle, JsonOf.settleItems_eq, List.map_congr_left ih, List.map_id']
  | obj members horder _ ih =>
      have hmembers : members.map (fun m => (m.1, m.2.settle)) = members := by
        rw [List.map_congr_left fun m hm => by rw [ih m hm], List.map_id']
      rw [JsonOf.settle, JsonOf.settleMembers_eq, hmembers, sortMembers_eq horder]

end Settled

namespace Json

open Decimal

/-! ### Values that can be read -/

/-- A value that can be read with so many container levels left, counted as the reader does. -/
inductive Legible : ℕ → Json → Prop
  | null {depth : ℕ} : Legible depth .null
  | bool {depth : ℕ} (b : Bool) : Legible depth (.bool b)
  | str {depth : ℕ} (s : String) : Legible depth (.str s)
  | number {depth : ℕ} (v : Json) (hv : Numeric v) : Legible depth v
  | arr {depth : ℕ} (hroom : 0 < depth) (items : List Json)
      (hitems : ∀ v ∈ items, Legible depth v) : Legible (depth + 1) (.arr items)
  | obj {depth : ℕ} (hroom : 0 < depth) (members : List (String × Json))
      (hmembers : ∀ m ∈ members, Legible depth m.2) : Legible (depth + 1) (.obj members)

/-- The elements of a list that can be read. -/
theorem Legible.of_arr {depth : ℕ} {items : List Json} (h : Legible depth (.arr items)) :
    ∃ inside, depth = inside + 1 ∧ 0 < inside ∧ ∀ v ∈ items, Legible inside v := by
  cases h with
  | number _ hv => exact hv.elim
  | arr hroom _ hitems => exact ⟨_, rfl, hroom, hitems⟩

/-- The members of an object that can be read. -/
theorem Legible.of_obj {depth : ℕ} {members : List (String × Json)}
    (h : Legible depth (.obj members)) :
    ∃ inside, depth = inside + 1 ∧ 0 < inside ∧ ∀ m ∈ members, Legible inside m.2 := by
  cases h with
  | number _ hv => exact hv.elim
  | obj hroom _ hmembers => exact ⟨_, rfl, hroom, hmembers⟩

/-- The numbers of a value that can be read are finite. -/
theorem Legible.writable {depth : ℕ} {v : Json} (h : Legible depth v) : v.Writable := by
  induction h with
  | null => exact .null
  | bool b => exact .bool b
  | str s => exact .str s
  | number v hv =>
      cases v with
      | int n => exact .int n
      | real x => exact .real x hv
      | null | bool | str | arr | obj => exact hv.elim
  | arr _ items _ ih => exact .arr items ih
  | obj _ members _ ih => exact .obj members ih

/-- A settled value can be read where the value can. -/
theorem Legible.settle {depth : ℕ} {v : Json} (h : Legible depth v) : Legible depth v.settle := by
  induction h with
  | null => exact .null
  | bool b => exact .bool b
  | str s => exact .str s
  | number v hv =>
      cases v with
      | int n => exact .number _ hv
      | real x => exact .number _ hv
      | null | bool | str | arr | obj => exact hv.elim
  | arr hroom items _ ih =>
      rw [JsonOf.settle, JsonOf.settleItems_eq]
      exact .arr hroom _ (List.forall_mem_map.2 ih)
  | obj hroom members _ ih =>
      rw [JsonOf.settle, JsonOf.settleMembers_eq]
      refine .obj hroom _ fun m hm => ?_
      obtain ⟨n, hn, rfl⟩ := List.mem_map.1 (mem_of_mem_sortMembers hm)
      exact ih n hn

/-! ### What is read -/

/-- What is read with some fuel can be read with so many container levels left. -/
structure Sound (fuel : ℕ) : Prop where
  value {depth : ℕ} {cs rest : List Char} {v : Json} :
    readValueAt fuel depth cs = .ok (v, rest) → Legible depth v
  items {depth : ℕ} {first : Bool} {cs rest : List Char} {vs : List Json} :
    readItemsAt fuel depth first cs = .ok (vs, rest) → ∀ v ∈ vs, Legible depth v
  members {depth : ℕ} {first : Bool} {cs rest : List Char} {ms : List (String × Json)} :
    readMembersAt fuel depth first cs = .ok (ms, rest) → ∀ m ∈ ms, Legible depth m.2

variable {fuel depth : ℕ} {first : Bool} {cs rest : List Char}

theorem Sound.value_succ (h : Sound fuel) {v : Json}
    (hread : readValueAt (fuel + 1) depth cs = .ok (v, rest)) : Legible depth v := by
  rw [readValueAt] at hread
  split at hread
  next => cases hread
  -- the three words
  iterate 3
    split at hread
    next =>
        obtain ⟨r, -, hread⟩ := bind_eq_ok.1 hread
        obtain ⟨rfl, -⟩ := Prod.mk.inj (Except.ok.inj hread)
        first | exact .null | exact .bool _
  split at hread
  next => exact .number _ (numeric_of_readNumber hread)
  split at hread
  next => exact .number _ (numeric_of_readNumber hread)
  split at hread
  next =>
      obtain ⟨⟨s, r⟩, -, hread⟩ := bind_eq_ok.1 hread
      obtain ⟨rfl, -⟩ := Prod.mk.inj (Except.ok.inj hread)
      exact .str s
  split at hread
  next =>
      split at hread
      next => cases hread
      next hroom =>
          obtain ⟨⟨vs, r⟩, hitems, hread⟩ := bind_eq_ok.1 hread
          obtain ⟨rfl, -⟩ := Prod.mk.inj (Except.ok.inj hread)
          obtain ⟨depth, rfl⟩ := Nat.exists_eq_add_of_le' (by omega : 1 ≤ depth)
          exact .arr (by omega) vs (h.items hitems)
  split at hread
  next =>
      split at hread
      next => cases hread
      next hroom =>
          obtain ⟨⟨ms, r⟩, hmembers, hread⟩ := bind_eq_ok.1 hread
          obtain ⟨rfl, -⟩ := Prod.mk.inj (Except.ok.inj hread)
          obtain ⟨depth, rfl⟩ := Nat.exists_eq_add_of_le' (by omega : 1 ≤ depth)
          exact .obj (by omega) ms (h.members hmembers)
  next => cases hread

theorem Sound.items_succ (h : Sound fuel) {vs : List Json}
    (hread : readItemsAt (fuel + 1) depth first cs = .ok (vs, rest)) :
    ∀ v ∈ vs, Legible depth v := by
  rw [readItemsAt] at hread
  obtain ⟨next, -, hread⟩ := bind_eq_ok.1 hread
  cases next with
  | none =>
      obtain ⟨r, -, hread⟩ := bind_eq_ok.1 hread
      obtain ⟨rfl, -⟩ := Prod.mk.inj (Except.ok.inj hread)
      exact List.forall_mem_nil _
  | some more =>
      obtain ⟨⟨v, r₁⟩, hv, hread⟩ := bind_eq_ok.1 hread
      obtain ⟨⟨vs, r₂⟩, hvs, hread⟩ := bind_eq_ok.1 hread
      obtain ⟨rfl, -⟩ := Prod.mk.inj (Except.ok.inj hread)
      exact List.forall_mem_cons.2 ⟨h.value hv, h.items hvs⟩

theorem Sound.members_succ (h : Sound fuel) {ms : List (String × Json)}
    (hread : readMembersAt (fuel + 1) depth first cs = .ok (ms, rest)) :
    ∀ m ∈ ms, Legible depth m.2 := by
  rw [readMembersAt] at hread
  obtain ⟨next, -, hread⟩ := bind_eq_ok.1 hread
  cases next with
  | none =>
      obtain ⟨r, -, hread⟩ := bind_eq_ok.1 hread
      obtain ⟨rfl, -⟩ := Prod.mk.inj (Except.ok.inj hread)
      exact List.forall_mem_nil _
  | some more =>
      obtain ⟨⟨k, r₁⟩, -, hread⟩ := bind_eq_ok.1 hread
      obtain ⟨r₂, -, hread⟩ := bind_eq_ok.1 hread
      obtain ⟨⟨v, r₃⟩, hv, hread⟩ := bind_eq_ok.1 hread
      obtain ⟨⟨others, r₄⟩, hothers, hread⟩ := bind_eq_ok.1 hread
      obtain ⟨rfl, -⟩ := Prod.mk.inj (Except.ok.inj hread)
      exact List.forall_mem_cons.2 ⟨h.value hv, h.members hothers⟩

/-- **What is read can be read**: it is within the bounds of the reader. -/
theorem sound (fuel : ℕ) : Sound fuel := by
  induction fuel with
  | zero =>
      refine ⟨fun h => ?_, fun h => ?_, fun h => ?_⟩
      · rw [readValueAt] at h
        cases h
      · rw [readItemsAt] at h
        cases h
      · rw [readMembersAt] at h
        cases h
  | succ fuel ih => exact ⟨ih.value_succ, ih.items_succ, ih.members_succ⟩

/-! ### The texts of containers -/

section Listed

variable {A : Type} {f : A → List Char} {a : A} {as : List A}

/-- The texts of the elements up to the end of a list; a comma stands before each but the first. -/
def listed (f : A → List Char) : Bool → List A → List Char
  | _, [] => []
  | true, a :: rest => f a ++ listed f false rest
  | false, a :: rest => ',' :: (f a ++ listed f false rest)

theorem joined_eq_listed (as : List A) : joined f as = listed f true as := by
  cases as with
  | nil => rfl
  | cons a as =>
      induction as generalizing a with
      | nil => exact (List.append_nil (f a)).symm
      | cons b as ih =>
          rw [joined_cons_cons, ih]
          rfl

/-- The text of a value starts here. -/
def Opens (cs : List Char) : Prop := ∃ c tail, cs = c :: tail ∧ isSpace c = false ∧ c ≠ ']'

theorem length_pos_of_opens (h : Opens cs) : 0 < cs.length := by
  obtain ⟨c, tail, rfl, -⟩ := h
  exact Nat.succ_pos _

theorem Opens.append (h : Opens cs) (r : List Char) : Opens (cs ++ r) := by
  obtain ⟨c, tail, rfl, hc⟩ := h
  exact ⟨c, tail ++ r, rfl, hc⟩

theorem Opens.skipSpace (h : Opens cs) : skipSpace cs = cs := by
  obtain ⟨c, tail, rfl, hc, -⟩ := h
  exact List.dropWhile_cons_of_neg (by simp [hc])

/-- Behind an element stands a comma or the end of the list. -/
theorem stops_listed {close : Char} (hclose : close = ']' ∨ close = '}') :
    Stops (listed f false as ++ close :: rest) := by
  cases as with
  | nil => exact stops_cons (.inr hclose)
  | cons a as => exact stops_cons (.inl rfl)

theorem nextItem_listed (h : Opens (f a)) :
    nextItem first (listed f first (a :: as) ++ rest) =
      .ok (some (f a ++ (listed f false as ++ rest))) := by
  have hskip := (h.append (listed f false as ++ rest)).skipSpace
  obtain ⟨c, tail, hc, -, hne⟩ := h
  rw [hc, List.cons_append] at hskip ⊢
  cases first with
  | true =>
      rw [listed, hc, List.append_assoc, List.cons_append, nextItem, hskip]
      simp [hne]
  | false =>
      have hcomma (cs : List Char) : skipSpace (',' :: cs) = ',' :: cs := rfl
      rw [listed, hc, List.cons_append, List.append_assoc, List.cons_append, nextItem, hcomma]
      simp [hskip, hne]

theorem nextItem_close : nextItem first (']' :: rest) = .ok none := rfl

theorem endList_close : endList (']' :: rest) = .ok rest := rfl

theorem nextKey_listed {k : String} {text : List Char} (h : f a = quote k ++ ':' :: text) :
    nextKey first (listed f first (a :: as) ++ rest) =
      .ok (some (k.toList.flatMap escape ++
        '"' :: ':' :: (text ++ (listed f false as ++ rest)))) := by
  cases first with
  | true => simp [listed, h, quote, nextKey, skipSpace, isSpace]
  | false => simp [listed, h, quote, nextKey, skipSpace, isSpace]

theorem nextKey_close : nextKey first ('}' :: rest) = .ok none := rfl

theorem endObject_close : endObject ('}' :: rest) = .ok rest := rfl

theorem readColon_colon : readColon (':' :: cs) = .ok cs := rfl

end Listed

/-! ### Values are read back -/

/-- The text of a value opens it, and an `n` opens nothing but the empty value. -/
theorem exists_lead {v : Json} (h : ∀ x, v = .real x → x.isFinite = true) :
    ∃ c tail, chars v = c :: tail ∧ isSpace c = false ∧ c ≠ ']' ∧ (c = 'n' → v = .null) := by
  have hnumber : StartsNumber (chars v) → ∃ c tail, chars v = c :: tail ∧ isSpace c = false ∧
      c ≠ ']' ∧ (c = 'n' → v = .null) := by
    rintro ⟨c, tail, hc, rfl | hdigit⟩
    · exact ⟨'-', tail, hc, rfl, by decide, fun h => absurd h (by decide)⟩
    · exact ⟨c, tail, hc, not_isSpace_of_isDigit hdigit, ne_of_isDigit rfl hdigit,
        fun h => absurd h (ne_of_isDigit rfl hdigit)⟩
  cases v with
  | null => exact ⟨'n', _, rfl, rfl, by decide, fun _ => rfl⟩
  | bool b =>
      cases b
      · exact ⟨'f', _, rfl, rfl, by decide, fun h => absurd h (by decide)⟩
      · exact ⟨'t', _, rfl, rfl, by decide, fun h => absurd h (by decide)⟩
  | int n => exact hnumber (startsNumber_intChars n)
  | real x => exact hnumber (startsNumber_chars (h x rfl))
  | str s => exact ⟨'"', _, rfl, rfl, by decide, fun h => absurd h (by decide)⟩
  | arr items => exact ⟨'[', _, rfl, rfl, by decide, fun h => absurd h (by decide)⟩
  | obj members => exact ⟨'{', _, rfl, rfl, by decide, fun h => absurd h (by decide)⟩

theorem opens_chars {v : Json} (h : ∀ x, v = .real x → x.isFinite = true) : Opens (chars v) := by
  obtain ⟨c, tail, hc, hspace, hne, -⟩ := exists_lead h
  exact ⟨c, tail, hc, hspace, hne⟩

theorem Numeric.isFinite {v : Json} {x : Float} (h : Numeric v) (hx : v = .real x) :
    x.isFinite = true := by
  subst hx
  exact h

theorem Legible.isFinite {v : Json} {x : Float} (h : Legible depth v) (hx : v = .real x) :
    x.isFinite = true := by
  subst hx
  cases h with
  | number _ hv => exact hv

/-- A value is read back behind whatever has been read, given fuel for its text. -/
def Rereads (depth : ℕ) (v : Json) : Prop :=
  ∀ fuel rest, Stops rest → 2 * (chars v).length ≤ fuel →
    readValueAt fuel depth (chars v ++ rest) = .ok (v, rest)

theorem readItemsAt_listed {items : List Json} (hopens : ∀ v ∈ items, Opens (chars v))
    (hitems : ∀ v ∈ items, Rereads depth v)
    (hfuel : 2 * (listed chars first items).length + 1 ≤ fuel) :
    readItemsAt fuel depth first (listed chars first items ++ ']' :: rest) =
      .ok (items, rest) := by
  induction items generalizing first fuel with
  | nil =>
      obtain ⟨fuel, rfl⟩ := Nat.exists_eq_add_of_le' (by omega : 1 ≤ fuel)
      rw [readItemsAt]
      exact bind_eq_ok.2 ⟨_, nextItem_close, bind_eq_ok.2 ⟨_, endList_close, rfl⟩⟩
  | cons v items ih =>
      obtain ⟨fuel, rfl⟩ := Nat.exists_eq_add_of_le' (by omega : 1 ≤ fuel)
      obtain ⟨hopen, hopens⟩ := List.forall_mem_cons.1 hopens
      obtain ⟨hv, hitems⟩ := List.forall_mem_cons.1 hitems
      have hlength : (chars v).length + (listed chars false items).length ≤
          (listed chars first (v :: items)).length := by
        cases first <;> simp [listed]
      have hpos := length_pos_of_opens hopen
      rw [readItemsAt]
      refine bind_eq_ok.2 ⟨_, nextItem_listed hopen, ?_⟩
      refine bind_eq_ok.2 ⟨_, hv _ _ (stops_listed (.inl rfl)) (by omega), ?_⟩
      exact bind_eq_ok.2 ⟨_, ih hopens hitems (by omega), rfl⟩

theorem readMembersAt_listed {members : List (String × Json)}
    (hmembers : ∀ m ∈ members, Rereads depth m.2)
    (hfuel : 2 * (listed memberChars first members).length + 1 ≤ fuel) :
    readMembersAt fuel depth first (listed memberChars first members ++ '}' :: rest) =
      .ok (members, rest) := by
  induction members generalizing first fuel with
  | nil =>
      obtain ⟨fuel, rfl⟩ := Nat.exists_eq_add_of_le' (by omega : 1 ≤ fuel)
      rw [readMembersAt]
      exact bind_eq_ok.2 ⟨_, nextKey_close, bind_eq_ok.2 ⟨_, endObject_close, rfl⟩⟩
  | cons m members ih =>
      obtain ⟨fuel, rfl⟩ := Nat.exists_eq_add_of_le' (by omega : 1 ≤ fuel)
      obtain ⟨hm, hmembers⟩ := List.forall_mem_cons.1 hmembers
      have hlength : (chars m.2).length + (listed memberChars false members).length + 1 ≤
          (listed memberChars first (m :: members)).length := by
        cases first with
        | true =>
            simp [listed, memberChars, memberText]
        | false =>
            simp [listed, memberChars, memberText]
            omega
      rw [readMembersAt]
      refine bind_eq_ok.2 ⟨_, nextKey_listed rfl, ?_⟩
      refine bind_eq_ok.2 ⟨_, readString_quote _ _, bind_eq_ok.2 ⟨_, readColon_colon, ?_⟩⟩
      refine bind_eq_ok.2 ⟨_, hm _ _ (stops_listed (.inr rfl)) (by omega), ?_⟩
      exact bind_eq_ok.2 ⟨_, ih hmembers (by omega), rfl⟩

theorem rereads_of_succ {v : Json} (hopen : Opens (chars v))
    (h : ∀ fuel rest, Stops rest → 2 * (chars v).length ≤ fuel + 1 →
      readValueAt (fuel + 1) depth (chars v ++ rest) = .ok (v, rest)) : Rereads depth v := by
  intro fuel rest hrest hfuel
  have hpos := length_pos_of_opens hopen
  obtain ⟨fuel, rfl⟩ := Nat.exists_eq_add_of_le' (by omega : 1 ≤ fuel)
  exact h fuel rest hrest hfuel

/-- **Values are read back** that can be read and whose doubles are read back. -/
theorem Legible.rereads {v : Json} (h : Legible depth v) (hreal : ∀ x ∈ v.doubles, ReadsBack x) :
    Rereads depth v := by
  induction h with
  | null => exact rereads_of_succ (opens_chars fun _ h => by cases h) fun _ _ _ _ => rfl
  | bool b =>
      refine rereads_of_succ (opens_chars fun _ h => by cases h) fun _ _ _ _ => ?_
      cases b <;> rfl
  | str s =>
      refine rereads_of_succ (opens_chars fun _ h => by cases h) fun fuel rest _ _ => ?_
      simp only [chars, quote, List.cons_append, List.append_assoc, List.nil_append]
      rw [readValueAt]
      exact bind_eq_ok.2 ⟨_, readString_quote s rest, rfl⟩
  | number v hv =>
      refine rereads_of_succ (opens_chars fun _ => hv.isFinite) fun fuel rest hrest _ => ?_
      have hstart : StartsNumber (chars v ++ rest) := by
        obtain ⟨c, tail, hc, hcase⟩ := startsNumber_chars hv
        exact ⟨c, tail ++ rest, by rw [hc, List.cons_append], hcase⟩
      rw [readValueAt_numeral hstart]
      refine readNumeral_chars hv (fun x hx => hreal x ?_) hrest
      rw [hx]
      exact List.mem_singleton.2 rfl
  | arr hroom items hitems ih =>
      refine rereads_of_succ (opens_chars fun _ h => by cases h) fun fuel rest _ hfuel => ?_
      rw [chars, itemsChars_eq, joined_eq_listed] at hfuel ⊢
      rw [List.length_cons, List.length_append, List.length_singleton] at hfuel
      have hread : readItemsAt fuel _ true (listed chars true items ++ ']' :: rest) =
          .ok (items, rest) :=
        readItemsAt_listed (fun v hv => opens_chars fun _ => (hitems v hv).isFinite)
          (fun v hv => ih v hv fun x hx => hreal x (JsonOf.mem_itemsDoubles hv hx)) (by omega)
      rw [List.cons_append, List.append_assoc]
      show (if _ ≤ 1 then _ else _) = _
      rw [if_neg (by omega)]
      exact bind_eq_ok.2 ⟨_, hread, rfl⟩
  | obj hroom members hmembers ih =>
      refine rereads_of_succ (opens_chars fun _ h => by cases h) fun fuel rest _ hfuel => ?_
      rw [chars, membersChars_eq, joined_eq_listed] at hfuel ⊢
      rw [List.length_cons, List.length_append, List.length_singleton] at hfuel
      have hread : readMembersAt fuel _ true (listed memberChars true members ++ '}' :: rest) =
          .ok (members, rest) :=
        readMembersAt_listed (fun m hm => ih m hm fun x hx =>
          hreal x (JsonOf.mem_membersDoubles hm hx)) (by omega)
      rw [List.cons_append, List.append_assoc]
      show (if _ ≤ 1 then _ else _) = _
      rw [if_neg (by omega)]
      exact bind_eq_ok.2 ⟨_, hread, rfl⟩

theorem readValue_chars {v : Json} (h : Legible depth v) (hreal : ∀ x ∈ v.doubles, ReadsBack x)
    (hrest : Stops rest) : readValue depth (chars v ++ rest) = .ok (v, rest) := by
  refine h.rereads hreal _ rest hrest ?_
  rw [List.length_append]
  omega

end Json

end AgentSwarm
