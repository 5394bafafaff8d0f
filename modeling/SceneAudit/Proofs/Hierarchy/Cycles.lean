import Mathlib.Data.Finset.Card
import Mathlib.Logic.Relation
import SceneAudit.Proofs.Hierarchy.Emission

/-! # Cycles that a walk reports

A walk reports a cycle at a transform that it comes to once more. It does so exactly where two
listed transforms have a child in common. On a cycle of owned transforms that a root leads to there
is such a child: the one where the walk gets on to the cycle. A cycle that no root leads to, or that
is broken at a transform without an owner, is never walked around.
-/

namespace SceneAudit

open Scene Relation

namespace Arena

variable {arena : Arena} {i p : Nat}

/-- The parent reference of the transform with the first number is the anchor of that with the
second. -/
def Refers (arena : Arena) (i p : Nat) : Prop :=
  ∃ u t, arena.transforms[i]? = some u ∧ arena.transforms[p]? = some t ∧ u.parent ≠ noAnchor ∧
    u.parent = t.anchor

/-- The transform with the first number refers to that with the second and has an owner. -/
def OwnedRefers (arena : Arena) (i p : Nat) : Prop :=
  arena.Refers i p ∧ ∃ u, arena.transforms[i]? = some u ∧ arena.Owned u

theorem refers_iff : arena.Refers i p ↔ i ∈ arena.children p := by
  rw [mem_children]
  constructor
  · rintro ⟨u, t, hu, ht, hne, heq⟩
    exact ⟨t, u, ht, hu, hne, heq⟩
  · rintro ⟨t, u, ht, hu, hne, heq⟩
    exact ⟨u, t, hu, ht, hne, heq⟩

section Revisits

/-- The listed transforms that have the transform with a number below them. -/
def listedParents (arena : Arena) (i : Nat) : List Nat :=
  arena.emitted.filter fun p => i ∈ arena.children p

theorem count_flatMap_children (numbers : List Nat) :
    (numbers.flatMap arena.children).count i =
      (numbers.filter fun p => i ∈ arena.children p).length := by
  induction numbers with
  | nil => rfl
  | cons p numbers ih =>
    rw [List.flatMap_cons, List.count_append, ih, List.filter_cons]
    by_cases hp : i ∈ arena.children p
    · rw [List.count_eq_one_of_mem (arena.nodup_children p) hp, if_pos (decide_eq_true hp),
        List.length_cons, Nat.add_comm]
    · rw [List.count_eq_zero_of_not_mem hp, if_neg (by simpa using hp), Nat.zero_add]

theorem count_walk : (arena.walk.map Visit.number).count i =
    arena.roots.count i + (arena.listedParents i).length := by
  rw [arena.walk_perm.count_eq, List.count_append, count_flatMap_children, listedParents]

def first? (v : Visit) : Option Nat :=
  match v.outcome with
  | .revisited => none
  | _ => some v.number

theorem first?_eq_some_iff {v : Visit} :
    first? v = some i ↔ v.number = i ∧ v.outcome ≠ .revisited := by
  rcases v with ⟨n, d, _ | _ | _⟩ <;> simp [first?]

theorem count_first_le (arena : Arena) (i : Nat) : (arena.walk.filterMap first?).count i ≤ 1 :=
  List.nodup_iff_count_le_one.mp (nodup_of_first first?_eq_some_iff.mp) i

theorem revisited_iff_count :
    (∃ v ∈ arena.walk, v.number = i ∧ v.outcome = .revisited) ↔
      1 < (arena.walk.map Visit.number).count i := by
  have hcount : (arena.walk.map Visit.number).count i =
      (arena.walk.filterMap first?).count i +
        arena.walk.countP fun v => v.number = i ∧ v.outcome = .revisited := by
    rw [List.count_filterMap, List.count, List.countP_map]
    generalize arena.walk = log
    induction log with
    | nil => rfl
    | cons v log ih =>
      rw [List.countP_cons, List.countP_cons, List.countP_cons, ih]
      by_cases hn : v.number = i <;> by_cases ho : v.outcome = .revisited <;>
        simp [hn, ho, first?_eq_some_iff] <;> omega
  have hfirst := arena.count_first_le i
  constructor
  · rintro ⟨v, hv, rfl, hout⟩
    have hagain : 0 < arena.walk.countP fun w => w.number = v.number ∧ w.outcome = .revisited :=
      List.countP_pos_iff.mpr ⟨v, hv, by simp [hout]⟩
    obtain ⟨w, hw, hfirst⟩ := first_of_visited (visited_iff.mpr ⟨v, List.mem_reverse.mpr hv, rfl⟩)
    have honce : 0 < (arena.walk.filterMap first?).count v.number :=
      List.count_pos_iff.mpr (List.mem_filterMap.mpr ⟨w, hw, first?_eq_some_iff.mpr hfirst⟩)
    omega
  · intro hmore
    have hagain : 0 < arena.walk.countP fun v => v.number = i ∧ v.outcome = .revisited := by omega
    obtain ⟨v, hv, hout⟩ := List.countP_pos_iff.mp hagain
    exact ⟨v, hv, of_decide_eq_true hout⟩

/-- The walk comes to a transform again exactly if two listed transforms have it below them. -/
theorem revisited_iff :
    (∃ v ∈ arena.walk, v.number = i ∧ v.outcome = .revisited) ↔
      ∃ p ∈ arena.emitted, ∃ q ∈ arena.emitted, p ≠ q ∧ arena.Refers i p ∧ arena.Refers i q := by
  have hparents : 1 < (arena.walk.map Visit.number).count i ↔
      1 < (arena.listedParents i).length := by
    rw [count_walk]
    by_cases hroot : i ∈ arena.roots
    · have hnone : arena.listedParents i = [] := by
        refine List.filter_eq_nil_iff.mpr fun p _ hp => ?_
        exact not_mem_roots_of_mem_children (of_decide_eq_true hp) hroot
      simp [hnone, List.count_eq_one_of_mem arena.nodup_roots hroot]
    · rw [List.count_eq_zero_of_not_mem hroot, Nat.zero_add]
  have hnodup : (arena.listedParents i).Nodup := List.filter_sublist.nodup arena.nodup_emitted
  rw [revisited_iff_count, hparents, ← List.toFinset_card_of_nodup hnodup, Finset.one_lt_card]
  simp only [List.mem_toFinset, listedParents, List.mem_filter, decide_eq_true_eq, refers_iff]
  constructor
  · rintro ⟨p, ⟨hp, hip⟩, q, ⟨hq, hiq⟩, hne⟩
    exact ⟨p, hp, q, hq, hne, hip, hiq⟩
  · rintro ⟨p, hp, q, hq, hne, hip, hiq⟩
    exact ⟨p, ⟨hp, hip⟩, q, ⟨hq, hiq⟩, hne⟩

end Revisits

section Cycles

theorem Linked.of_below {j : Nat} (hj : Linked arena j)
    (h : ReflTransGen arena.OwnedRefers i j) : Linked arena i := by
  induction h using ReflTransGen.head_induction_on with
  | refl => exact hj
  | head hstep _ ih =>
    obtain ⟨⟨u, t, hu, ht, hne, heq⟩, u', hu', howned⟩ := hstep
    obtain rfl : u = u' := Option.some.inj (hu.symm.trans hu')
    exact .child ih ht hu hne heq howned

theorem Linked.exists_common_child {j : Nat} (hj : Linked arena j)
    (hcycle : TransGen arena.OwnedRefers j j) :
    ∃ m, ReflTransGen arena.OwnedRefers j m ∧ ReflTransGen arena.OwnedRefers m j ∧
      ∃ p q, Linked arena p ∧ Linked arena q ∧ p ≠ q ∧ arena.Refers m p ∧ arena.Refers m q := by
  induction hj with
  | @root j t ht hroot howned =>
    obtain ⟨q, ⟨⟨u, _, hu, _, hne, _⟩, _⟩, _⟩ := TransGen.head'_iff.mp hcycle
    obtain rfl : t = u := Option.some.inj (ht.symm.trans hu)
    exact absurd hroot hne
  | @child i j t u hi ht hu hne heq howned ih =>
    have hrefers : arena.OwnedRefers j i := ⟨⟨u, t, hu, ht, hne, heq⟩, u, hu, howned⟩
    obtain ⟨q, hq, hback⟩ := TransGen.head'_iff.mp hcycle
    have hj : Linked arena j := .child hi ht hu hne heq howned
    by_cases hsame : i = q
    · subst hsame
      obtain ⟨m, him, hmi, hparents⟩ := ih (TransGen.tail' hback hrefers)
      exact ⟨m, .head hrefers him, hmi.trans hback, hparents⟩
    · exact ⟨j, .refl, .refl, i, q, hi, hj.of_below hback, hsame, hrefers.1, hq.1⟩

end Cycles

theorem cycle_mem_issues {v : Visit} {t : Transform} (hv : v ∈ arena.walk)
    (hout : v.outcome = .revisited) (ht : arena.transforms[v.number]? = some t) :
    Issue.cycle t.anchor ∈ arena.walk.filterMap arena.issue? := by
  refine List.mem_filterMap.mpr ⟨v, hv, ?_⟩
  rw [issue?, hout, ht]

end Arena

open Arena

/-- The walk over the transforms of any scene comes to an end. If a transform that it lists is its
own ancestor by the parent references of owned transforms, then it reports a cycle, and it does so
at a transform of that cycle. -/
theorem cycle_reported (scene : Scene) {i : Nat} (hlisted : i ∈ (Arena.ofScene scene).emitted)
    (hcycle : TransGen (Arena.ofScene scene).OwnedRefers i i) :
    let arena := Arena.ofScene scene
    Walks arena 0 [] arena.roots arena.walk.reverse ∧
      ∃ m t, ReflTransGen arena.OwnedRefers i m ∧ ReflTransGen arena.OwnedRefers m i ∧
        arena.transforms[m]? = some t ∧
        Issue.cycle t.anchor ∈ (Hierarchy.ofScene scene).issues := by
  intro arena
  refine ⟨arena.walks_walk, ?_⟩
  obtain ⟨m, him, hmi, p, q, hp, hq, hne, hmp, hmq⟩ :=
    (linked_of_mem_emitted hlisted).exists_common_child hcycle
  obtain ⟨v, hv, rfl, hout⟩ := revisited_iff.mpr
    ⟨p, mem_emitted_iff.mpr hp, q, mem_emitted_iff.mpr hq, hne, hmp, hmq⟩
  obtain ⟨t, ht, -⟩ := faithful_of_mem_walk hv
  exact ⟨v.number, t, him, hmi, ht, cycle_mem_issues hv hout ht⟩

/-- The second of two transforms with one anchor hangs below its own child. -/
theorem cycle_reported_of_shared_anchor :
    let scene : Scene := ⟨[], [.object ⟨['1'], ['A']⟩, .object ⟨['3'], ['B']⟩,
      .object ⟨['5'], ['C']⟩, .transform ⟨['2'], ['1'], ['0']⟩, .transform ⟨['4'], ['3'], ['2']⟩,
      .transform ⟨['2'], ['5'], ['4']⟩], 0⟩
    let arena := Arena.ofScene scene
    1 ∈ arena.emitted ∧ TransGen arena.OwnedRefers 1 1 ∧
      (Hierarchy.ofScene scene).issues = [.cycle ['4']] ∧
      Walks arena 0 [] arena.roots arena.walk.reverse ∧
      ∃ m t, ReflTransGen arena.OwnedRefers 1 m ∧ ReflTransGen arena.OwnedRefers m 1 ∧
        arena.transforms[m]? = some t ∧
        Issue.cycle t.anchor ∈ (Hierarchy.ofScene scene).issues := by
  intro scene arena
  have hlisted : 1 ∈ arena.emitted := by decide
  have hcopy : arena.OwnedRefers 1 2 :=
    ⟨⟨_, _, rfl, rfl, by decide, rfl⟩, _, rfl, ⟨⟨['5'], ['C']⟩, by decide, rfl⟩⟩
  have hchild : arena.OwnedRefers 2 1 :=
    ⟨⟨_, _, rfl, rfl, by decide, rfl⟩, _, rfl, ⟨⟨['3'], ['B']⟩, by decide, rfl⟩⟩
  have hcycle : TransGen arena.OwnedRefers 1 1 := .tail (.single hcopy) hchild
  exact ⟨hlisted, hcycle, by decide, cycle_reported scene hlisted hcycle⟩

/-- No cycle is reported at a transform that refers to itself and that no root leads to, and none
at a listed transform whose ancestry leads back to it through a transform without an owner. -/
theorem not_cycle_reported_of_unreached_or_ownerless :
    let apart : Scene := ⟨[], [.object ⟨['1'], ['A']⟩, .transform ⟨['2'], ['1'], ['2']⟩], 0⟩
    let broken : Scene := ⟨[], [.object ⟨['1'], ['A']⟩, .transform ⟨['2'], ['1'], ['0']⟩,
      .transform ⟨['4'], ['1'], ['2']⟩, .transform ⟨['2'], ['9'], ['4']⟩], 0⟩
    (TransGen (Arena.ofScene apart).Refers 0 0 ∧
        ¬ ∃ issue ∈ (Hierarchy.ofScene apart).issues, issue.isCycle = true) ∧
      2 ∈ (Arena.ofScene broken).emitted ∧ TransGen (Arena.ofScene broken).Refers 2 2 ∧
        ¬ ∃ issue ∈ (Hierarchy.ofScene broken).issues, issue.isCycle = true := by
  intro apart broken
  have hself : (Arena.ofScene apart).Refers 0 0 := ⟨_, _, rfl, rfl, by decide, rfl⟩
  have hup : (Arena.ofScene broken).Refers 2 1 := ⟨_, _, rfl, rfl, by decide, rfl⟩
  have hback : (Arena.ofScene broken).Refers 1 2 := ⟨_, _, rfl, rfl, by decide, rfl⟩
  exact ⟨⟨.single hself, by decide⟩, by decide, .tail (.single hup) hback, by decide⟩

end SceneAudit
