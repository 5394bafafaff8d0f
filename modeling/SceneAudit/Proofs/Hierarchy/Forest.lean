import SceneAudit.Proofs.Hierarchy.Emission

/-! # The hierarchy as a forest

If no two transforms have anchors with one key, the parent references make up a forest, and a walk
lists it from the roots down without ever coming to a transform twice. The listing is defined by
recursion on the references alone, with no record of what has been visited.
-/

namespace SceneAudit

open Scene Arena

namespace Forest

/-- Sibling `t` need not be listed after sibling `u`. -/
def NotAfter (t u : Transform) : Prop :=
  ¬ Precedes u.anchor t.anchor

theorem notAfter_iff {t u : Transform} : NotAfter t u ↔ anchorLe t u = true := by
  rw [NotAfter, precedes_iff, Bool.not_eq_false]
  rfl

instance : DecidableRel NotAfter := fun _ _ => decidable_of_iff _ notAfter_iff.symm

instance : Std.Total NotAfter where
  total t u := by
    rw [notAfter_iff, notAfter_iff]
    exact AnchorKey.le_total _ _

instance : IsTrans Transform NotAfter where
  trans t u v := by
    rw [notAfter_iff, notAfter_iff, notAfter_iff]
    exact AnchorKey.le_trans

def ordered (siblings : List Transform) : List Transform :=
  siblings.insertionSort NotAfter

def roots (transforms : List Transform) : List Transform :=
  ordered (transforms.filter fun t => t.parent = noAnchor)

/-- The transforms that refer to the one above. -/
def below (transforms : List Transform) (above : Transform) : List Transform :=
  ordered (transforms.filter fun t => t.parent ≠ noAnchor ∧ t.parent = above.anchor)

/-- The name of the object with an anchor; of several objects the last one counts. -/
def nameOf? (objects : List Object) (owner : Text) : Option Text :=
  (objects.filter fun o => o.anchor = owner).getLast?.map Object.name

/-- The lines of the tree under a transform that is `hops` references away from its root, down to a
given height. A transform whose owner is no object is left out with all that lies below it. -/
def tree (objects : List Object) (transforms : List Transform) :
    (height hops : Nat) → Transform → List Text
  | 0, _, _ => []
  | height + 1, hops, t =>
    match nameOf? objects t.owner with
    | none => []
    | some name =>
      (List.replicate hops '-' ++ name) ::
        (below transforms t).flatMap (tree objects transforms height (hops + 1))

/-- The lines of the forest of transforms, root by root, down to a given height. -/
def listing (objects : List Object) (transforms : List Transform) (height : Nat) : List Text :=
  (roots transforms).flatMap (tree objects transforms height 0)

section Tree

variable {objects : List Object} {transforms : List Transform} {t : Transform}

theorem tree_ownerless (h : nameOf? objects t.owner = none) (height hops : Nat) :
    tree objects transforms height hops t = [] := by
  cases height <;> simp [tree, h]

theorem tree_listed {name : Text} (h : nameOf? objects t.owner = some name) (height hops : Nat) :
    tree objects transforms (height + 1) hops t =
      (List.replicate hops '-' ++ name) ::
        (below transforms t).flatMap (tree objects transforms height (hops + 1)) := by
  simp [tree, h]

end Tree

theorem pairwise_ordered (siblings : List Transform) :
    (ordered siblings).Pairwise (anchorLe · · = true) :=
  (List.pairwise_insertionSort NotAfter siblings).imp notAfter_iff.mp

theorem ordered_perm (siblings : List Transform) : (ordered siblings).Perm siblings :=
  List.perm_insertionSort NotAfter siblings

end Forest

namespace Arena

variable {arena : Arena}

theorem ownerName?_eq (owner : Text) :
    arena.ownerName? owner = Forest.nameOf? arena.objects owner := by
  rw [ownerName?, Forest.nameOf?, ← List.head?_filter, List.filter_reverse, List.head?_reverse]

/-- No two transforms have anchors with one key. -/
def DistinctKeys (transforms : List Transform) : Prop :=
  (transforms.map fun t => AnchorKey.ofAnchor t.anchor).Nodup

instance : DecidablePred DistinctKeys := fun _ => inferInstanceAs (Decidable (List.Nodup _))

section DistinctKeys

variable (hkeys : DistinctKeys arena.transforms)

include hkeys

theorem DistinctKeys.eq_of_anchor_eq {i j : Nat} {t u : Transform}
    (ht : arena.transforms[i]? = some t) (hu : arena.transforms[j]? = some u)
    (h : t.anchor = u.anchor) : i = j := by
  have hlt : i < (arena.transforms.map fun t => AnchorKey.ofAnchor t.anchor).length := by
    rw [List.length_map]
    exact lt_length ht
  refine (List.getElem?_inj hlt hkeys).mp ?_
  rw [List.getElem?_map, List.getElem?_map, ht, hu, Option.map_some, Option.map_some, h]

theorem DistinctKeys.disjoint_children {p q : Nat} (hne : p ≠ q) :
    List.Disjoint (arena.children p) (arena.children q) := by
  intro i hp hq
  obtain ⟨t, u, ht, hu, _, heq⟩ := mem_children.mp hp
  obtain ⟨t', u', ht', hu', _, heq'⟩ := mem_children.mp hq
  obtain rfl : u = u' := Option.some.inj (hu.symm.trans hu')
  exact hne (hkeys.eq_of_anchor_eq ht ht' (heq.symm.trans heq'))

theorem DistinctKeys.nodup_visits : (arena.walk.map Visit.number).Nodup := by
  rw [arena.walk_perm.nodup_iff, List.nodup_append']
  refine ⟨arena.nodup_roots, List.nodup_flatMap.mpr ⟨fun p _ => arena.nodup_children p, ?_⟩, ?_⟩
  · exact arena.nodup_emitted.imp fun hne => hkeys.disjoint_children hne
  · intro i hi hc
    obtain ⟨p, _, hp⟩ := List.mem_flatMap.mp hc
    exact not_mem_roots_of_mem_children hp hi

theorem DistinctKeys.not_revisited {v : Visit} (hv : v ∈ arena.walk) : v.outcome ≠ .revisited := by
  intro hout
  obtain ⟨w, hw, hnumber, hfirst⟩ := first_of_visited
    (visited_iff.mpr ⟨v, List.mem_reverse.mpr hv, rfl⟩)
  obtain rfl : w = v := List.inj_on_of_nodup_map hkeys.nodup_visits hw hv hnumber
  exact hfirst hout

end DistinctKeys

def select (arena : Arena) (numbers : List Nat) : List Transform :=
  numbers.filterMap (arena.transforms[·]?)

theorem select_cons {i : Nat} {t : Transform} (ht : arena.transforms[i]? = some t)
    (numbers : List Nat) : arena.select (i :: numbers) = t :: arena.select numbers :=
  List.filterMap_cons_some ht

theorem select_map_snd {l : List (Transform × Nat)} (hl : ∀ e ∈ l, e ∈ arena.numbered) :
    arena.select (l.map Prod.snd) = l.map Prod.fst := by
  induction l with
  | nil => rfl
  | cons e l ih =>
    obtain ⟨he, hrest⟩ := List.forall_mem_cons.mp hl
    rw [List.map_cons, select_cons (mem_numbered.mp he), ih hrest, List.map_cons]

theorem map_fst_filter_numbered (p : Transform → Bool) :
    (arena.numbered.filter fun e => p e.1).map Prod.fst = arena.transforms.filter p := by
  rw [← Function.comp_def p, ← List.filter_map, numbered, List.zipIdx_map_fst]

theorem select_roots (arena : Arena) :
    arena.select arena.roots = arena.transforms.filter Transform.isRoot := by
  rw [roots, select_map_snd fun e he => List.mem_of_mem_filter he, map_fst_filter_numbered]

theorem select_childrenOf (parent : Transform) :
    arena.select (arena.childrenOf parent) =
      (Sorting.sort (fun a b => anchorLe a.1 b.1)
        (arena.numbered.filter fun e => isChild parent e.1).reverse).map Prod.fst :=
  select_map_snd fun e he => by
    rw [Sorting.mem_sort, List.mem_reverse] at he
    exact List.mem_of_mem_filter he

theorem select_childrenOf_perm (parent : Transform) :
    (arena.select (arena.childrenOf parent)).Perm (arena.transforms.filter (isChild parent)) := by
  rw [select_childrenOf, ← map_fst_filter_numbered]
  exact ((Sorting.sort_perm _).trans (List.reverse_perm _)).map Prod.fst

theorem pairwise_select_childrenOf (parent : Transform) :
    (arena.select (arena.childrenOf parent)).Pairwise (anchorLe · · = true) := by
  rw [select_childrenOf, List.pairwise_map]
  exact Sorting.pairwise_sort _

theorem DistinctKeys.eq_ordered {transforms selected siblings : List Transform}
    (hkeys : DistinctKeys transforms) (hsub : selected ⊆ transforms)
    (hp : selected.Perm siblings) (hs : selected.Pairwise (anchorLe · · = true)) :
    selected = Forest.ordered siblings := by
  have hp' : selected.Perm (Forest.ordered siblings) := hp.trans (Forest.ordered_perm _).symm
  refine List.Perm.eq_of_pairwise ?_ hs (Forest.pairwise_ordered siblings) hp'
  intro t u ht hu htu hut
  exact List.inj_on_of_nodup_map hkeys (hsub ht) (hsub (hp'.mem_iff.mpr hu))
    (AnchorKey.le_antisymm htu hut)

end Arena

section Lines

open Forest (tree)

variable {objects : List Object} {transforms : List Transform}

theorem filter_isRoot :
    transforms.filter Transform.isRoot = transforms.filter fun t => t.parent = noAnchor :=
  List.filter_congr fun t _ => by rw [Bool.eq_iff_iff, isRoot_iff, decide_eq_true_iff]

theorem filter_isChild (t : Transform) :
    transforms.filter (isChild t) =
      transforms.filter fun u => u.parent ≠ noAnchor ∧ u.parent = t.anchor :=
  List.filter_congr fun u _ => by rw [Bool.eq_iff_iff, isChild_iff, decide_eq_true_iff]

theorem select_roots_eq (hkeys : DistinctKeys transforms) :
    (ofEntities objects transforms).select (ofEntities objects transforms).roots =
      Forest.roots transforms := by
  have hp : (ofEntities objects transforms).transforms.Perm transforms := Sorting.sort_perm _
  refine hkeys.eq_ordered ?_ ?_ ?_
  · rw [select_roots]
    exact fun t ht => hp.mem_iff.mp (List.mem_of_mem_filter ht)
  · rw [select_roots, ← filter_isRoot]
    exact hp.filter Transform.isRoot
  · rw [select_roots]
    exact (Sorting.pairwise_sort transforms).filter _

theorem select_children_eq (hkeys : DistinctKeys transforms) {i : Nat} {t : Transform}
    (ht : (ofEntities objects transforms).transforms[i]? = some t) :
    (ofEntities objects transforms).select ((ofEntities objects transforms).children i) =
      Forest.below transforms t := by
  have hp : (ofEntities objects transforms).transforms.Perm transforms := Sorting.sort_perm _
  have hc : ((ofEntities objects transforms).select
      ((ofEntities objects transforms).childrenOf t)).Perm _ := select_childrenOf_perm t
  simp only [children, ht]
  refine hkeys.eq_ordered ?_ ?_ (pairwise_select_childrenOf t)
  · intro u hu
    exact hp.mem_iff.mp (List.mem_of_mem_filter (hc.mem_iff.mp hu))
  · rw [← filter_isChild]
    exact hc.trans (hp.filter (isChild t))

/-- A walk that comes to no transform twice lists the trees of the transforms it is sent to. -/
theorem walk_lines (hkeys : DistinctKeys transforms) {depth height : Nat} {numbers : List Nat}
    {log log' : List Visit} (h : Walks (ofEntities objects transforms) depth log numbers log')
    (hfirst : ∀ v ∈ log', v.outcome ≠ .revisited)
    (hheight : ((ofEntities objects transforms).unvisited log).card ≤ height) :
    log'.reverse.filterMap line? = log.reverse.filterMap line? ++
      ((ofEntities objects transforms).select numbers).flatMap
        (tree objects transforms height depth) := by
  induction h generalizing height with
  | done => simp [select]
  | revisit _ hw _ => exact absurd rfl (hfirst _ (hw.suffix.subset List.mem_cons_self))
  | @ownerless depth number numbers log log' t hv ht hn hw ih =>
    have hnone : Forest.nameOf? objects t.owner = none := by rw [← hn, ownerName?_eq]; rfl
    rw [ih hfirst ((card_unvisited_le (List.suffix_cons _ _)).trans hheight), select_cons ht,
      List.flatMap_cons, Forest.tree_ownerless hnone]
    simp [line?]
  | @listed depth number numbers log below log' t name hv ht hn hb hw ihb ih =>
    have hless := card_unvisited_cons_lt (v := ⟨number, depth, .listed name⟩) (lt_length ht) hv
    have hsome : Forest.nameOf? objects t.owner = some name := by rw [← hn, ownerName?_eq]; rfl
    have hcard := (card_unvisited_le ((List.suffix_cons _ _).trans hb.suffix)).trans hheight
    obtain ⟨height, rfl⟩ := Nat.exists_eq_add_of_lt (Nat.zero_lt_of_lt (hless.trans_le hheight))
    rw [Nat.zero_add] at hheight hcard ⊢
    have hbelow := Nat.le_of_lt_succ (hless.trans_le hheight)
    rw [ih hfirst hcard, ihb (fun v hv => hfirst v (hw.suffix.subset hv)) hbelow,
      select_children_eq hkeys ht, select_cons ht, List.flatMap_cons, Forest.tree_listed hsome]
    simp [line?]

end Lines

/-- If no two transforms have anchors with one key, the lines of a hierarchy are the listing of the
forest that the parent references make up, to any height that is at least the number of transforms,
and there is no cycle among the issues. -/
theorem lines_eq_listing (scene : Scene) (hkeys : DistinctKeys scene.transforms) :
    (∀ height, scene.transforms.length ≤ height →
      (Hierarchy.ofScene scene).lines =
        Forest.listing scene.objects scene.transforms height) ∧
    ∀ issue ∈ (Hierarchy.ofScene scene).issues, ¬ issue.isCycle = true := by
  have hperm : (Arena.ofScene scene).transforms.Perm scene.transforms := Sorting.sort_perm _
  have harena : DistinctKeys (Arena.ofScene scene).transforms :=
    (hperm.map _).nodup_iff.mpr hkeys
  constructor
  · intro height hheight
    have hcard : ((Arena.ofScene scene).unvisited []).card ≤ height :=
      calc ((Arena.ofScene scene).unvisited []).card
          ≤ (Arena.ofScene scene).transforms.length := card_unvisited_nil_le _
        _ = scene.transforms.length := hperm.length_eq
        _ ≤ height := hheight
    have h := walk_lines hkeys (walks_walk (Arena.ofScene scene))
      (fun v hv => harena.not_revisited (List.mem_reverse.mp hv)) hcard
    rw [List.reverse_reverse] at h
    rw [Forest.listing, ← select_roots_eq hkeys]
    exact h
  · intro issue hissue
    obtain ⟨v, hv, hv'⟩ := List.mem_filterMap.mp hissue
    obtain ⟨t, ht, _⟩ := faithful_of_mem_walk hv
    have hfirst := harena.not_revisited hv
    rcases v with ⟨number, depth, name | _ | _⟩
    · simp [issue?] at hv'
    · exact absurd rfl hfirst
    · obtain rfl := Option.some.inj ((issue?_ownerless ht depth).symm.trans hv')
      simp [Issue.isCycle]

/-- A forest beside a cycle that no root leads to, with one branch cut off at its missing owner. -/
theorem lines_eq_listing_beside_cycle :
    let scene : Scene := ⟨[], [
      .transform ⟨['x'], ['3'], ['1', '0']⟩, .transform ⟨['9'], ['2'], ['1', '0']⟩,
      .transform ⟨['1', '0'], ['1'], ['0']⟩, .transform ⟨['4'], ['3'], ['9']⟩,
      .transform ⟨['5'], ['7'], ['1', '0']⟩, .transform ⟨['6'], ['1'], ['5']⟩,
      .transform ⟨['2', '0'], ['1'], ['2', '1']⟩, .transform ⟨['2', '1'], ['2'], ['2', '0']⟩,
      .object ⟨['1'], ['A']⟩, .object ⟨['2'], ['B']⟩, .object ⟨['3'], ['C']⟩], 0⟩
    DistinctKeys scene.transforms ∧
      (Hierarchy.ofScene scene).lines = [['A'], ['-', 'B'], ['-', '-', 'C'], ['-', 'C']] ∧
      ∀ issue ∈ (Hierarchy.ofScene scene).issues, ¬ issue.isCycle = true := by
  intro scene
  have hkeys : DistinctKeys scene.transforms := by decide
  obtain ⟨hlines, hissues⟩ := lines_eq_listing scene hkeys
  exact ⟨hkeys, (hlines 8 (by decide)).trans (by decide), hissues⟩

end SceneAudit
