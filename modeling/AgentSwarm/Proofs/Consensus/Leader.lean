/-
**The bloc that is selected.**

Of the blocs of a vote one is left when every bloc in turn replaces the one it wins against.  Two
blocs whose masses differ by no more than the tolerance tie, and ties are not transitive: of three
blocs with masses `x`, `x + 8e-13` and `x + 16e-13` the outer ones do not tie, though both tie with
the one between them, and each bloc may lose to another one.  Then there is no bloc that the others
do not win against, and which one is left depends on the order of the keys.

Otherwise nothing depends on that order.  Of two blocs of different agents one wins, so at most one
bloc is unbeaten; and once an unbeaten bloc is reached it is never replaced.  Hence the selected
bloc is unbeaten as soon as any bloc is, which is so whenever masses within the tolerance are equal.

Main definitions:

* `AgentSwarm.blocsOf` — the blocs of a vote;
* `AgentSwarm.Bloc.Unbeaten` — a bloc that no other bloc wins against;
* `AgentSwarm.ConsensusResult.Selects` — what a consensus says of the bloc it selects.

Main results:

* `AgentSwarm.Bloc.beats_iff` — when a bloc wins against another;
* `AgentSwarm.leader_eq_of_prevails` — **a bloc that wins against all others is selected**;
* `AgentSwarm.Bloc.Unbeaten.leader_eq`, `AgentSwarm.exists_unbeaten` — an unbeaten bloc is selected,
  and exact ties leave one;
* `AgentSwarm.vote_unbeaten_iff` — **what is selected is unbeaten exactly when anything is**, and
  then it does not depend on the names of the keys;
* `AgentSwarm.vote_cycle` — a vote in which every bloc is beaten.
-/

import AgentSwarm.Proofs.Consensus.Blocs
import Mathlib.Algebra.Order.Ring.Abs
import Mathlib.Data.List.MinMax
import Mathlib.Data.Prod.Lex
import Mathlib.Tactic.Linarith
import Mathlib.Tactic.NormNum
import Mathlib.Tactic.Positivity

set_option relaxedAutoImplicit false
set_option autoImplicit false

namespace AgentSwarm

/-! ### The bloc that is left -/

section Fold

variable {R : Type} [Scalar R] {blocs : List (Bloc R)} {u : Bloc R}

/-- Once a bloc that wins against all others is reached, it stays. -/
theorem foldl_beats_eq_of_prevails {best : Bloc R} {rest : List (Bloc R)}
    (hmem : best = u ∨ u ∈ rest)
    (h : ∀ b ∈ best :: rest, b = u ∨ u.beats b = true ∧ b.beats u = false) :
    rest.foldl (fun best candidate => if candidate.beats best then candidate else best) best =
      u := by
  induction rest generalizing best with
  | nil => exact hmem.resolve_right List.not_mem_nil
  | cons c rest ih =>
      rw [List.foldl_cons]
      refine ih ?_ ?_
      · rcases hmem with rfl | hmem
        · rcases h c (by simp) with rfl | ⟨-, hc⟩
          · simp
          · simp [hc]
        · rcases List.mem_cons.1 hmem with rfl | hmem
          · rcases h best (by simp) with rfl | ⟨hbest, -⟩
            · simp
            · simp [hbest]
          · exact .inr hmem
      · intro b hb
        rcases List.mem_cons.1 hb with rfl | hb
        · split
          · exact h c (by simp)
          · exact h best (by simp)
        · exact h b (by simp [hb])

/-- **A bloc that wins against all others, and that none of them wins against, is selected.** -/
theorem leader_eq_of_prevails (hu : u ∈ blocs)
    (h : ∀ b ∈ blocs, b = u ∨ u.beats b = true ∧ b.beats u = false) : leader blocs = some u := by
  cases blocs with
  | nil => cases hu
  | cons first rest =>
      rw [leader, foldl_beats_eq_of_prevails ((List.mem_cons.1 hu).imp_left Eq.symm) h]

end Fold

/-! ### The blocs of a vote -/

section Votes

variable {R : Type} [Scalar R] {key : JsonOf R → String} {ballots : List (Ballot R)} {u w : Bloc R}

/-- The blocs of a vote. -/
def blocsOf (key : JsonOf R → String) (ballots : List (Ballot R)) : List (Bloc R) :=
  (tally key ballots).map Prod.snd

/-- Every ballot is in a bloc, and every bloc is that of a ballot. -/
theorem mem_blocsOf : u ∈ blocsOf key ballots ↔
    ∃ b ∈ ballots, Bloc.of? (ballotsOf key (key b.answer) ballots) = some u := by
  constructor
  · intro h
    obtain ⟨⟨k, u⟩, hmem, rfl⟩ := List.mem_map.1 h
    have hu := mem_tally.1 hmem
    obtain ⟨b, hgroup⟩ := List.exists_mem_of_ne_nil _ (Bloc.holds_of? hu).ne_nil
    obtain ⟨hb, rfl⟩ := mem_ballotsOf.1 hgroup
    exact ⟨b, hb, hu⟩
  · rintro ⟨b, hb, hu⟩
    exact List.mem_map.2 ⟨_, mem_tally.2 hu, rfl⟩

/-- Agents with one ballot each are in one bloc only. -/
theorem eq_of_ordered_eq (hids : (ballots.map (·.agentId)).Nodup) (hu : u ∈ blocsOf key ballots)
    (hw : w ∈ blocsOf key ballots) (h : Text.ordered u.agentIds = Text.ordered w.agentIds) :
    u = w := by
  obtain ⟨b, hb, hu⟩ := mem_blocsOf.1 hu
  obtain ⟨c, hc, hw⟩ := mem_blocsOf.1 hw
  have hkey : key b.answer = key c.answer := by
    -- the agent of `b` has a ballot in the other bloc, which is its only one
    have hagent : b.agentId ∈ w.agentIds := by
      rw [← (Text.perm_ordered _).mem_iff, ← h, (Text.perm_ordered _).mem_iff,
        (Bloc.holds_of? hu).agentIds]
      exact List.mem_map.2 ⟨b, mem_ballotsOf.2 ⟨hb, rfl⟩, rfl⟩
    rw [(Bloc.holds_of? hw).agentIds] at hagent
    obtain ⟨b', hb', heq⟩ := List.mem_map.1 hagent
    obtain ⟨hb', hkey⟩ := mem_ballotsOf.1 hb'
    rw [← hkey, List.inj_on_of_nodup_map hids hb' hb heq]
  rw [hkey, hw] at hu
  exact (Option.some.inj hu).symm

/-- Keys that group answers in the same way give the same blocs. -/
theorem mem_blocsOf_congr {key' : JsonOf R → String}
    (h : ∀ v v', key' v = key' v' ↔ key v = key v') :
    u ∈ blocsOf key' ballots ↔ u ∈ blocsOf key ballots := by
  simp only [mem_blocsOf, ballotsOf, h]

/-- A bloc of a vote that no bloc wins against. -/
structure Bloc.Unbeaten (u : Bloc R) (key : JsonOf R → String) (ballots : List (Ballot R)) :
    Prop where
  mem : u ∈ blocsOf key ballots
  not_beats (b : Bloc R) (h : b ∈ blocsOf key ballots) : b.beats u = false

/-- What a consensus says of the bloc it selects. -/
structure ConsensusResult.Selects (c : ConsensusResult R) (u : Bloc R)
    (ballots : List (Ballot R)) : Prop where
  value : c.value = some u.answer
  confidence : c.confidence = Scalar.clampUnit (Scalar.mean u.weights)
  agreement : c.agreement =
    Scalar.clampUnit (Scalar.div u.mass (Scalar.sum (ballots.map (·.weight))))
  winners : c.metadata.lookup "winning_agents" = some (.arr (u.agentIds.map .str))

/-- A majority vote selects the bloc that is left. -/
theorem majorityVote_selects {key : VoteKey R} (metadata : Members R)
    (h : leader (blocsOf key.keyOf ballots) = some u) :
    (majorityVote key ballots metadata).Selects u ballots := by
  rw [blocsOf] at h
  simp only [majorityVote, h]
  exact ⟨rfl, rfl, rfl, by simp [lookup_insertMember]⟩

/-- A plurality has the answer of the bloc that is left. -/
theorem plurality_eq (h : leader (blocsOf Json.compact ballots) = some u) :
    plurality ballots = u.answer := by
  rw [blocsOf] at h
  rw [plurality, h]

end Votes

/-! ### Unbeaten blocs -/

variable {R : Type} [Field R] [LinearOrder R] [IsStrictOrderedRing R] [Scalar R] [ExactScalar R]
variable {key : JsonOf R → String} {ballots : List (Ballot R)} {u w : Bloc R}

/-- Whether two exact masses tie. -/
theorem tied_iff {x y : R} : tied x y = true ↔ |x - y| ≤ 1 / 10 ^ 12 := by
  rw [tied, ExactScalar.lessEq_iff, ExactScalar.distance_eq, ExactScalar.tolerance_eq]

/-- **When a bloc wins against another**: its mass is greater by more than the tolerance, or the
masses tie and its agents come first. -/
theorem Bloc.beats_iff {candidate best : Bloc R} :
    candidate.beats best = true ↔
      best.mass + 1 / 10 ^ 12 < candidate.mass ∨
        |candidate.mass - best.mass| ≤ 1 / 10 ^ 12 ∧
          Text.ordered candidate.agentIds < Text.ordered best.agentIds := by
  have htolerance : (0 : R) < 1 / 10 ^ 12 := by positivity
  unfold Bloc.beats
  split
  next h =>
      rw [tied_iff] at h
      have hnot : ¬ best.mass + 1 / 10 ^ 12 < candidate.mass := by
        rw [not_lt, ← sub_le_iff_le_add']
        exact (le_abs_self _).trans h
      rw [decide_eq_true_iff]
      exact ⟨fun hlt => .inr ⟨h, hlt⟩, fun hor => (hor.resolve_left hnot).2⟩
  next h =>
      rw [tied_iff, not_le] at h
      rw [ExactScalar.less_iff]
      constructor
      · intro hlt
        rw [abs_of_pos (sub_pos.2 hlt)] at h
        exact .inl (by linarith)
      · rintro (hlt | ⟨hle, -⟩)
        · linarith
        · exact absurd hle (not_le.2 h)

/-- Of two blocs of different agents one wins. -/
theorem Bloc.beats_or_beats (h : Text.ordered u.agentIds ≠ Text.ordered w.agentIds) :
    u.beats w = true ∨ w.beats u = true := by
  rw [Bloc.beats_iff, Bloc.beats_iff]
  by_cases htied : |u.mass - w.mass| ≤ 1 / 10 ^ 12
  · rcases lt_or_gt_of_ne h with hlt | hlt
    · exact .inl (.inr ⟨htied, hlt⟩)
    · exact .inr (.inr ⟨abs_sub_comm u.mass w.mass ▸ htied, hlt⟩)
  · rw [not_le, lt_abs] at htied
    rcases htied with hlt | hlt
    · exact .inl (.inl (by linarith))
    · exact .inr (.inl (by linarith))

/-- **An unbeaten bloc is selected.** -/
theorem Bloc.Unbeaten.leader_eq (h : u.Unbeaten key ballots)
    (hids : (ballots.map (·.agentId)).Nodup) : leader (blocsOf key ballots) = some u := by
  refine leader_eq_of_prevails h.mem fun b hb => ?_
  by_cases hsame : Text.ordered u.agentIds = Text.ordered b.agentIds
  · exact .inl (eq_of_ordered_eq hids h.mem hb hsame).symm
  · have hnot := h.not_beats b hb
    exact .inr ⟨(beats_or_beats hsame).resolve_right (by simp [hnot]), hnot⟩

/-- What is selected is unbeaten exactly when anything is. -/
theorem unbeaten_iff_exists (hids : (ballots.map (·.agentId)).Nodup)
    (h : leader (blocsOf key ballots) = some w) :
    w.Unbeaten key ballots ↔ ∃ u : Bloc R, u.Unbeaten key ballots := by
  refine ⟨fun hw => ⟨w, hw⟩, ?_⟩
  rintro ⟨u, hu⟩
  rw [hu.leader_eq hids] at h
  exact Option.some.inj h ▸ hu

omit [IsStrictOrderedRing R] [ExactScalar R] [Field R] [LinearOrder R] in
/-- Keys that group answers in the same way leave the same blocs unbeaten. -/
theorem Bloc.Unbeaten.congr {key' : JsonOf R → String}
    (hkey : ∀ v v', key' v = key' v' ↔ key v = key v') (h : u.Unbeaten key ballots) :
    u.Unbeaten key' ballots where
  mem := (mem_blocsOf_congr hkey).2 h.mem
  not_beats b hb := h.not_beats b ((mem_blocsOf_congr hkey).1 hb)

/-- Blocs in the order of their masses, and those of one mass in the opposite order of their
agents. -/
def Bloc.rank (b : Bloc R) : R ×ₗ (List String)ᵒᵈ :=
  toLex (b.mass, OrderDual.toDual (Text.ordered b.agentIds))

/-- **When masses within the tolerance are equal, some bloc is unbeaten**: of those with the
greatest mass the one whose agents come first. -/
theorem exists_unbeaten (hne : ballots ≠ [])
    (hties : ∀ a ∈ blocsOf key ballots, ∀ b ∈ blocsOf key ballots,
      tied a.mass b.mass = true → a.mass = b.mass) :
    ∃ u : Bloc R, u.Unbeaten key ballots := by
  obtain ⟨u, hu⟩ : ∃ u, u ∈ (blocsOf key ballots).argmax Bloc.rank :=
    Option.ne_none_iff_exists'.1 fun hnone =>
      tally_ne_nil hne (List.map_eq_nil_iff.1 (List.argmax_eq_none.1 hnone))
  refine ⟨u, List.argmax_mem hu, fun b hb => ?_⟩
  rw [← Bool.not_eq_true, Bloc.beats_iff]
  have hle : b.rank ≤ u.rank := List.le_of_mem_argmax hb hu
  rw [Bloc.rank, Bloc.rank, Prod.Lex.le_iff] at hle
  have htolerance : (0 : R) < 1 / 10 ^ 12 := by positivity
  rintro (hgreater | ⟨htied, hfirst⟩)
  · have hmass : b.mass ≤ u.mass := hle.elim le_of_lt fun h => h.1.le
    linarith
  · have hmass := hties b hb u (List.argmax_mem hu) (tied_iff.2 htied)
    rcases hle with hlt | ⟨-, hids⟩
    · exact hlt.ne hmass
    · exact absurd hfirst (not_lt.2 hids)

/-- **What is selected is unbeaten exactly when anything is.**  In a majority vote and in a
plurality the selected bloc is one of the vote, and no bloc wins against it as soon as there is a
bloc that none wins against; there is one when masses that tie are equal.  And then the value, the
confidence and the agreement do not depend on how keys are named. -/
theorem vote_unbeaten_iff (key : VoteKey R) (metadata : Members R) (hne : ballots ≠ [])
    (hids : (ballots.map (·.agentId)).Nodup) :
    (∃ w ∈ blocsOf key.keyOf ballots, (majorityVote key ballots metadata).Selects w ballots ∧
      (w.Unbeaten key.keyOf ballots ↔ ∃ u : Bloc R, u.Unbeaten key.keyOf ballots)) ∧
    (∃ w ∈ blocsOf Json.compact ballots, plurality ballots = w.answer ∧
      (w.Unbeaten Json.compact ballots ↔ ∃ u : Bloc R, u.Unbeaten Json.compact ballots)) ∧
    ((∀ a ∈ blocsOf key.keyOf ballots, ∀ b ∈ blocsOf key.keyOf ballots,
      tied a.mass b.mass = true → a.mass = b.mass) →
        ∃ u : Bloc R, u.Unbeaten key.keyOf ballots) ∧
    ((∃ u : Bloc R, u.Unbeaten key.keyOf ballots) → ∀ f : String → String, Function.Injective f →
      let renamed := majorityVote (fun v => some (f (key.keyOf v))) ballots metadata
      renamed.value = (majorityVote key ballots metadata).value ∧
        renamed.confidence = (majorityVote key ballots metadata).confidence ∧
        renamed.agreement = (majorityVote key ballots metadata).agreement) := by
  refine ⟨?_, ?_, exists_unbeaten hne, ?_⟩
  · obtain ⟨w, hw, -⟩ := exists_leader key.keyOf hne
    exact ⟨w, leader_mem hw, majorityVote_selects metadata hw, unbeaten_iff_exists hids hw⟩
  · obtain ⟨w, hw, -⟩ := exists_leader Json.compact hne
    exact ⟨w, leader_mem hw, plurality_eq hw, unbeaten_iff_exists hids hw⟩
  · rintro ⟨u, hu⟩ f hf
    have hrenamed : u.Unbeaten (VoteKey.keyOf fun v => some (f (key.keyOf v))) ballots :=
      hu.congr fun v v' => hf.eq_iff
    have h := majorityVote_selects metadata (hu.leader_eq hids)
    have h' := majorityVote_selects metadata (hrenamed.leader_eq hids)
    exact ⟨h'.value.trans h.value.symm, h'.confidence.trans h.confidence.symm,
      h'.agreement.trans h.agreement.symm⟩

namespace Sample

/-- Two answers with one mass. -/
noncomputable def even : List (Ballot ℝ) :=
  [⟨"a", .str "z", (1 / 2 : ℚ)⟩, ⟨"b", .str "y", (1 / 2 : ℚ)⟩]

/-- Three answers with masses `1 / 2`, a little more, and a little more again. -/
noncomputable def cycle : List (Ballot ℝ) :=
  [⟨"a", .str "z", (1 / 2 : ℚ)⟩, ⟨"b", .str "y", (1 / 2 + 8 / 10 ^ 13 : ℚ)⟩,
    ⟨"c", .str "x", (1 / 2 + 16 / 10 ^ 13 : ℚ)⟩]

/-- The key of a text is the text. -/
def byText : VoteKey ℝ := JsonOf.text?

/-- The names of two keys exchanged. -/
def exchange : String → String := Equiv.swap "x" "z"

/-- The bloc of one ballot. -/
noncomputable def alone (b : Ballot ℝ) : Bloc ℝ :=
  letI := Scalar.reals fun _ => []
  (Bloc.opened b.answer).add b

theorem alone_mass (b : Ballot ℝ) : (alone b).mass = b.weight := by
  let := Scalar.reals fun _ => []
  have := ExactScalar.reals fun _ => []
  rw [alone, Bloc.opened, Bloc.add, ExactScalar.add_eq, ExactScalar.zero_eq, zero_add]

theorem blocsOf_even : letI := Scalar.reals fun _ => []
    blocsOf byText.keyOf even = (even.map alone).reverse := by
  rfl

theorem blocsOf_cycle : letI := Scalar.reals fun _ => []
    blocsOf byText.keyOf cycle = (cycle.map alone).reverse := by
  rfl

theorem blocsOf_exchange : letI := Scalar.reals fun _ => []
    blocsOf (VoteKey.keyOf fun v => some (exchange (byText.keyOf v))) cycle = cycle.map alone := by
  rfl

/-- When the bloc of one ballot wins against that of another. -/
theorem alone_beats {b c : Ballot ℝ} : letI := Scalar.reals fun _ => []
    (alone b).beats (alone c) = true ↔ c.weight + 1 / 10 ^ 12 < b.weight ∨
      |b.weight - c.weight| ≤ 1 / 10 ^ 12 ∧ [b.agentId] < [c.agentId] := by
  let := Scalar.reals fun _ => []
  have := ExactScalar.reals fun _ => []
  rw [Bloc.beats_iff, alone_mass, alone_mass]
  rfl

end Sample

/-- Two blocs of one mass: one of them is unbeaten, and other names for the keys change nothing. -/
theorem vote_unbeaten_iff_met : letI := Scalar.reals fun _ => []
    Sample.even ≠ [] ∧ (Sample.even.map (·.agentId)).Nodup ∧
      (∀ a ∈ blocsOf Sample.byText.keyOf Sample.even,
        ∀ b ∈ blocsOf Sample.byText.keyOf Sample.even,
          tied a.mass b.mass = true → a.mass = b.mass) ∧
      (∃ u : Bloc ℝ, u.Unbeaten Sample.byText.keyOf Sample.even) ∧
      Function.Injective Sample.exchange ∧
      (majorityVote (fun v => some (Sample.exchange (Sample.byText.keyOf v)))
        Sample.even []).value = (majorityVote Sample.byText Sample.even []).value := by
  let := Scalar.reals fun _ => []
  have := ExactScalar.reals fun _ => []
  have hne : Sample.even ≠ [] := List.cons_ne_nil _ _
  have hids : (Sample.even.map (·.agentId)).Nodup := by decide
  have hmass : ∀ a ∈ blocsOf Sample.byText.keyOf Sample.even, a.mass = 1 / 2 := by
    intro a ha
    rw [Sample.blocsOf_even, List.mem_reverse] at ha
    obtain ⟨b, hb, rfl⟩ := List.mem_map.1 ha
    rw [Sample.alone_mass]
    rcases List.mem_pair.1 hb with rfl | rfl <;> norm_num
  obtain ⟨-, -, hties, hnames⟩ := vote_unbeaten_iff Sample.byText [] hne hids
  have hequal : ∀ a ∈ blocsOf Sample.byText.keyOf Sample.even,
      ∀ b ∈ blocsOf Sample.byText.keyOf Sample.even,
        tied a.mass b.mass = true → a.mass = b.mass :=
    fun a ha b hb _ => (hmass a ha).trans (hmass b hb).symm
  exact ⟨hne, hids, hequal, hties hequal, Equiv.injective _,
    (hnames (hties hequal) Sample.exchange (Equiv.injective _)).1⟩

/-- **A vote in which every bloc is beaten.**  With masses `1 / 2`, `1 / 2 + 8e-13` and
`1 / 2 + 16e-13` the first bloc is selected, although the last one wins against it by more than the
tolerance; and the last one is selected when the names of two keys are exchanged. -/
theorem vote_cycle : letI := Scalar.reals fun _ => []
    (Sample.cycle.map (·.agentId)).Nodup ∧
      (∃ w ∈ blocsOf Sample.byText.keyOf Sample.cycle,
        (majorityVote Sample.byText Sample.cycle []).Selects w Sample.cycle ∧
        ∃ b ∈ blocsOf Sample.byText.keyOf Sample.cycle, b.beats w = true) ∧
      Function.Injective Sample.exchange ∧
      (majorityVote Sample.byText Sample.cycle []).value = some (.str "z") ∧
      (majorityVote (fun v => some (Sample.exchange (Sample.byText.keyOf v)))
        Sample.cycle []).value = some (.str "x") := by
  let := Scalar.reals fun _ => []
  let a : Bloc ℝ := Sample.alone ⟨"a", .str "z", (1 / 2 : ℚ)⟩
  let b : Bloc ℝ := Sample.alone ⟨"b", .str "y", (1 / 2 + 8 / 10 ^ 13 : ℚ)⟩
  let c : Bloc ℝ := Sample.alone ⟨"c", .str "x", (1 / 2 + 16 / 10 ^ 13 : ℚ)⟩
  have hblocs : blocsOf Sample.byText.keyOf Sample.cycle = [c, b, a] :=
    Sample.blocsOf_cycle.trans rfl
  have hrenamed : blocsOf (VoteKey.keyOf fun v => some (Sample.exchange (Sample.byText.keyOf v)))
      Sample.cycle = [a, b, c] := Sample.blocsOf_exchange.trans rfl
  have hab : a.beats b = true := Sample.alone_beats.2 (.inr ⟨by norm_num [abs_of_neg], by decide⟩)
  have hbc : b.beats c = true := Sample.alone_beats.2 (.inr ⟨by norm_num [abs_of_neg], by decide⟩)
  have hca : c.beats a = true := Sample.alone_beats.2 (.inl (by norm_num))
  have hba : b.beats a = false := by
    rw [← Bool.not_eq_true, Sample.alone_beats, not_or, not_and]
    exact ⟨by norm_num, fun _ => by decide⟩
  have hleader : leader (blocsOf Sample.byText.keyOf Sample.cycle) = some a := by
    simp [hblocs, leader, hab, hbc]
  have hleader' : leader (blocsOf (VoteKey.keyOf fun v =>
      some (Sample.exchange (Sample.byText.keyOf v))) Sample.cycle) = some c := by
    simp [hrenamed, leader, hba, hca]
  exact ⟨by decide,
    ⟨a, by simp [hblocs], majorityVote_selects [] hleader, c, by simp [hblocs], hca⟩,
    Equiv.injective _, (majorityVote_selects [] hleader).value,
    (majorityVote_selects [] hleader').value⟩

end AgentSwarm
