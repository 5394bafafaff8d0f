import SceneAudit.Proofs.Hierarchy.Arena

/-! # The order of siblings

Transforms are numbered by a stable sort of what the scene has, and children are sorted anew, with
the highest number first. Of anchors with one key, such as an anchor that occurs twice or `7` and
`07`, roots therefore come in the order of the scene and children in the opposite order of their
numbers. The same children come out of a graph to which each transform adds its edges in turn.
-/

namespace SceneAudit

open Scene

namespace Arena

/-- One transform's anchor comes before another one's, or it has the same key and the tie is
settled by their numbers. -/
def StandsBefore (arena : Arena) (tie : Nat → Nat → Prop) (i j : Nat) : Prop :=
  ∃ t u, arena.transforms[i]? = some t ∧ arena.transforms[j]? = some u ∧
    (Precedes t.anchor u.anchor ∨
      AnchorKey.ofAnchor t.anchor = AnchorKey.ofAnchor u.anchor ∧ tie i j)

/-- The place in the scene of each transform of its arena. -/
structure Arranges (scene : Scene) (places : List Nat) : Prop where
  /-- Each place is the place of exactly one transform of the arena. -/
  perm : places.Perm (List.range scene.transforms.length)
  transforms : List.Forall₂ (fun t p => scene.transforms[p]? = some t)
    (ofScene scene).transforms places

/-- The first number's transform is written earlier than the second one's. -/
def WrittenBefore (places : List Nat) (i j : Nat) : Prop :=
  ∃ p q, places[i]? = some p ∧ places[j]? = some q ∧ p < q

def keyAt (arena : Arena) (i : Nat) : AnchorKey :=
  AnchorKey.ofAnchor ((arena.transforms[i]?.map Transform.anchor).getD [])

variable {arena : Arena} {scene : Scene}

theorem pairwise_numbered (ts : List Transform) : ts.zipIdx.Pairwise fun a b => a.2 < b.2 := by
  have h : (ts.zipIdx.map Prod.snd).Pairwise (· < ·) := by
    rw [List.zipIdx_map_snd]
    exact List.pairwise_lt_range'
  exact List.pairwise_map.mp h

theorem precedes_or_of_le {t u : Transform} {tie : Prop}
    (h : anchorLe t u = true ∧ (anchorLe u t = true → tie)) : Precedes t.anchor u.anchor ∨
      AnchorKey.ofAnchor t.anchor = AnchorKey.ofAnchor u.anchor ∧ tie := by
  cases hle : anchorLe u t with
  | false => exact .inl ((precedes_iff _ _).mpr hle)
  | true => exact .inr ⟨AnchorKey.le_antisymm h.1 hle, h.2 hle⟩

theorem pairwise_children (arena : Arena) (p : Nat) :
    (arena.children p).Pairwise (arena.StandsBefore (· > ·)) := by
  unfold children
  cases arena.transforms[p]? with
  | none => exact List.Pairwise.nil
  | some parent =>
    have hnumbers : (arena.numbered.filter fun e => isChild parent e.1).reverse.Pairwise
        fun a b => a.2 > b.2 :=
      List.pairwise_reverse.mpr ((pairwise_numbered arena.transforms).filter _)
    change (arena.childrenOf parent).Pairwise _
    rw [childrenOf, List.pairwise_map]
    refine (Sorting.pairwise_sort_stable hnumbers).imp_of_mem fun {a b} ha hb hab => ?_
    have hmem : ∀ e ∈ Sorting.sort (fun a b => anchorLe a.1 b.1)
        (arena.numbered.filter fun e => isChild parent e.1).reverse,
        arena.transforms[e.2]? = some e.1 := fun e he =>
      mem_numbered.mp (List.mem_of_mem_filter (List.mem_reverse.mp (Sorting.mem_sort.mp he)))
    exact ⟨a.1, b.1, hmem a ha, hmem b hb, precedes_or_of_le hab⟩

/-- The transforms of a scene with their places, in the order of their numbers. -/
def placed (scene : Scene) : List (Transform × Nat) :=
  Sorting.sort (fun a b => anchorLe a.1 b.1) scene.transforms.zipIdx

theorem map_fst_placed : (placed scene).map Prod.fst = (ofScene scene).transforms := by
  rw [placed, ← Sorting.sort_map, List.zipIdx_map_fst]
  rfl

theorem arranges_placed : Arranges scene ((placed scene).map Prod.snd) := by
  constructor
  · have hperm : (placed scene).Perm scene.transforms.zipIdx := Sorting.sort_perm _
    have hplaces := hperm.map Prod.snd
    rwa [List.zipIdx_map_snd, ← List.range_eq_range'] at hplaces
  · rw [← map_fst_placed, List.forall₂_map_left_iff, List.forall₂_map_right_iff, List.forall₂_same]
    intro e he
    exact List.mem_zipIdx_iff_getElem?.mp (Sorting.mem_sort.mp he)

theorem standsBefore_of_lt {i j : Nat} (hij : i < j) (hj : j < (ofScene scene).transforms.length) :
    (ofScene scene).StandsBefore (WrittenBefore ((placed scene).map Prod.snd)) i j := by
  have hget : ∀ (k : Nat) (hk : k < (placed scene).length),
      (ofScene scene).transforms[k]? = some (placed scene)[k].1 ∧
        ((placed scene).map Prod.snd)[k]? = some (placed scene)[k].2 := by
    intro k hk
    rw [← map_fst_placed, List.getElem?_map, List.getElem?_map, List.getElem?_eq_getElem hk]
    exact ⟨rfl, rfl⟩
  rw [← map_fst_placed, List.length_map] at hj
  have hpairwise : (placed scene).Pairwise fun a b =>
      anchorLe a.1 b.1 = true ∧ (anchorLe b.1 a.1 = true → a.2 < b.2) :=
    Sorting.pairwise_sort_stable (pairwise_numbered scene.transforms)
  have hle := List.pairwise_iff_getElem.mp hpairwise i j (hij.trans hj) hj hij
  obtain ⟨hi, hi'⟩ := hget i (hij.trans hj)
  obtain ⟨hj, hj'⟩ := hget j hj
  refine ⟨_, _, hi, hj, (precedes_or_of_le hle).imp_right fun h => ⟨h.1, ?_⟩⟩
  exact ⟨_, _, hi', hj', h.2⟩

theorem pairwise_roots (scene : Scene) :
    (ofScene scene).roots.Pairwise
      ((ofScene scene).StandsBefore (WrittenBefore ((placed scene).map Prod.snd))) := by
  have hnumbers : (ofScene scene).roots.Pairwise (· < ·) :=
    List.pairwise_map.mpr ((pairwise_numbered _).filter _)
  refine hnumbers.imp_of_mem fun {i j} _ hj hij => standsBefore_of_lt hij ?_
  obtain ⟨t, ht, -⟩ := mem_roots.mp hj
  exact lt_length ht

theorem count_children {p i : Nat} {t u : Transform} (ht : arena.transforms[p]? = some t)
    (hu : arena.transforms[i]? = some u) : (arena.children p).count i =
      if u.parent = t.anchor ∧ u.parent ≠ noAnchor then 1 else 0 := by
  have hmem : i ∈ arena.children p ↔ u.parent = t.anchor ∧ u.parent ≠ noAnchor := by
    simp only [mem_children, ht, hu, Option.some.injEq]
    constructor
    · rintro ⟨_, _, rfl, rfl, hne, heq⟩
      exact ⟨heq, hne⟩
    · rintro ⟨heq, hne⟩
      exact ⟨t, u, rfl, rfl, hne, heq⟩
  rw [(arena.nodup_children p).count]
  exact if_congr hmem rfl rfl

theorem count_roots {i : Nat} {t : Transform} (ht : arena.transforms[i]? = some t) :
    arena.roots.count i = if t.parent = noAnchor then 1 else 0 := by
  have hmem : i ∈ arena.roots ↔ t.parent = noAnchor := by
    simp only [mem_roots, ht, Option.some.injEq]
    constructor
    · rintro ⟨_, rfl, hroot⟩
      exact hroot
    · exact fun hroot => ⟨t, rfl, hroot⟩
  rw [arena.nodup_roots.count]
  exact if_congr hmem rfl rfl

section Edges

variable {p : Nat} {t : Transform}

theorem filter_number_eq (ht : arena.transforms[p]? = some t) :
    (arena.numbered.filter fun e => e.2 = p) = [(t, p)] := by
  have hsame : ∀ e ∈ arena.numbered, decide (e.2 = p) = (e == (t, p)) := by
    rintro ⟨u, i⟩ he
    rw [Bool.eq_iff_iff, decide_eq_true_iff, beq_iff_eq, Prod.mk.injEq]
    refine ⟨?_, And.right⟩
    rintro rfl
    exact ⟨Option.some.inj ((mem_numbered.mp he).symm.trans ht), rfl⟩
  have hnodup : arena.numbered.Nodup := arena.nodup_numbers.of_map _
  rw [List.filter_congr hsame, List.filter_beq,
    List.count_eq_one_of_mem hnodup (mem_numbered.mpr ht), List.replicate_one]

theorem neighbors_eq (ht : arena.transforms[p]? = some t) : arena.neighbors p =
    ((arena.numbered.filter fun e => isChild t e.1).reverse).map Prod.snd := by
  have hchild : ∀ child : Transform × Nat,
      (((arena.numbered.filter fun e => isChild e.1 child.1).map fun e => (e.2, child.2)).filter
        fun e => e.1 = p).map Prod.snd = if isChild t child.1 then [child.2] else [] := by
    intro child
    rw [List.filter_map, Function.comp_def, List.filter_filter]
    simp only [Bool.and_comm (decide _)]
    rw [← List.filter_filter, filter_number_eq ht]
    cases hbelow : isChild t child.1 <;> simp [hbelow]
  have hselect : ∀ l : List (Transform × Nat),
      (l.flatMap fun child => if isChild t child.1 then [child.2] else []) =
        (l.filter fun e => isChild t e.1).map Prod.snd := by
    intro l
    induction l with
    | nil => rfl
    | cons e l ih => cases he : isChild t e.1 <;> simp [he, ih]
  rw [neighbors, edges, List.filter_flatMap, List.map_flatMap, List.map_reverse]
  simp only [hchild, hselect]

theorem keyAt_eq (ht : arena.transforms[p]? = some t) :
    arena.keyAt p = AnchorKey.ofAnchor t.anchor := by
  rw [keyAt, ht]
  rfl

/-- The children are what the graph has, stably sorted by key and without repetitions. -/
theorem children_eq_of_edges (ht : arena.transforms[p]? = some t) :
    arena.children p = Sorting.dedupBy (· == ·)
      (Sorting.sort (fun i j => (arena.keyAt i).le (arena.keyAt j)) (arena.neighbors p)) := by
  have hchildren : arena.children p = arena.childrenOf t := by
    rw [children, ht]
  have hsort : Sorting.sort (fun i j => (arena.keyAt i).le (arena.keyAt j)) (arena.neighbors p) =
      arena.childrenOf t := by
    have hkey : ∀ e ∈ (arena.numbered.filter fun e => isChild t e.1).reverse,
        arena.keyAt e.2 = AnchorKey.ofAnchor e.1.anchor := fun e he =>
      keyAt_eq (mem_numbered.mp (List.mem_of_mem_filter (List.mem_reverse.mp he)))
    rw [neighbors_eq ht, childrenOf, Sorting.sort_eq, Sorting.sort_eq]
    refine (List.map_insertionSort _ _ Prod.snd _ fun a ha b hb => ?_).symm
    rw [hkey a ha, hkey b hb]
    rfl
  have hnodup : (arena.childrenOf t).Pairwise fun i j => (i == j) = false := by
    rw [← hchildren]
    exact (arena.nodup_children p).imp beq_eq_false_iff_ne.mpr
  rw [hchildren, hsort, Sorting.dedupBy_eq_self hnodup]

end Edges

end Arena

open Arena

/-- The children of a transform are those whose parent reference is its anchor, unless it refers to
nothing, each once; they ascend by anchor, of one key the highest number first, and are what the
graph of the transforms has as neighbors, sorted by key. The roots are the transforms that refer to
nothing, each once; they ascend by anchor, of one key in the order of the scene. No root is a
child. -/
theorem siblings_exact (scene : Scene) :
    let arena := Arena.ofScene scene
    (∀ i t, arena.transforms[i]? = some t →
      (∀ j u, arena.transforms[j]? = some u → (arena.children i).count j =
        if u.parent = t.anchor ∧ u.parent ≠ noAnchor then 1 else 0) ∧
      (∀ j ∈ arena.children i, j < arena.transforms.length ∧ j ∉ arena.roots) ∧
      (arena.children i).Pairwise (arena.StandsBefore (· > ·)) ∧
      arena.children i = Sorting.dedupBy (· == ·)
        (Sorting.sort (fun j k => (arena.keyAt j).le (arena.keyAt k)) (arena.neighbors i))) ∧
    (∀ i t, arena.transforms[i]? = some t →
      arena.roots.count i = if t.parent = noAnchor then 1 else 0) ∧
    (∀ i ∈ arena.roots, i < arena.transforms.length) ∧
    ∃ places, Arranges scene places ∧
      arena.roots.Pairwise (arena.StandsBefore (WrittenBefore places)) := by
  intro arena
  refine ⟨fun i t ht => ⟨fun j u hu => count_children ht hu, fun j hj => ⟨?_, ?_⟩,
    pairwise_children arena i, children_eq_of_edges ht⟩,
    fun i t ht => count_roots ht, fun i hi => ?_, _, arranges_placed, pairwise_roots scene⟩
  · obtain ⟨_, _, _, hu, _⟩ := mem_children.mp hj
    exact lt_length hu
  · exact not_mem_roots_of_mem_children hj
  · obtain ⟨_, ht, _⟩ := mem_roots.mp hi
    exact lt_length ht

/-- Two transforms with the anchor `x`, and children of both among which `7` and `07` have one key;
those with the parent `0` do not lie below the transform with the anchor `0`. -/
theorem siblings_exact_of_equal_keys :
    let scene : Scene := ⟨[], [
      .transform ⟨['0', '7'], ['1'], ['x']⟩, .transform ⟨['x'], ['1'], ['0']⟩,
      .transform ⟨['7'], ['1'], ['x']⟩, .transform ⟨['y'], ['1'], ['x']⟩,
      .transform ⟨['-', '3'], ['1'], ['x']⟩, .transform ⟨['x'], ['2'], ['0']⟩,
      .transform ⟨['0'], ['1'], ['x']⟩], 0⟩
    let arena := Arena.ofScene scene
    let above : Transform := ⟨['x'], ['2'], ['0']⟩
    arena.transforms[5]? = some above ∧ arena.children 5 = [0, 1, 3, 2, 6] ∧
      arena.children 1 = [] ∧ arena.roots = [4, 5] ∧
      (∀ j u, arena.transforms[j]? = some u → (arena.children 5).count j =
        if u.parent = above.anchor ∧ u.parent ≠ noAnchor then 1 else 0) ∧
      (∀ j ∈ arena.children 5, j < arena.transforms.length ∧ j ∉ arena.roots) ∧
      (arena.children 5).Pairwise (arena.StandsBefore (· > ·)) ∧
      arena.neighbors 5 = [6, 3, 2, 1, 0] ∧ arena.children 5 = Sorting.dedupBy (· == ·)
        (Sorting.sort (fun j k => (arena.keyAt j).le (arena.keyAt k)) (arena.neighbors 5)) ∧
      arena.roots.count 5 = 1 ∧ ∃ places, Arranges scene places ∧
        arena.roots.Pairwise (arena.StandsBefore (WrittenBefore places)) := by
  intro scene arena above
  have habove : arena.transforms[5]? = some above := by decide
  obtain ⟨hchildren, hroots, -, hplaces⟩ := siblings_exact scene
  obtain ⟨hcount, hnot, horder, hedges⟩ := hchildren 5 above habove
  exact ⟨habove, by decide, by decide, by decide, hcount, hnot, horder, by decide, hedges,
    hroots 5 above habove, hplaces⟩

end SceneAudit
