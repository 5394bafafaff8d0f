import SceneAudit.Proofs.Hierarchy.AnchorOrder

/-! # Roots and children of an arena

Which numbers are roots and which are children of a transform, in terms of the parent references. No
number occurs twice among the roots or the children of one transform, and no root is a child.
-/

namespace SceneAudit

open Scene

namespace Arena

variable {arena : Arena}

/-- A transform has an owner among the objects of the arena. -/
def Owned (arena : Arena) (t : Transform) : Prop :=
  ∃ o ∈ arena.objects, o.anchor = t.owner

@[simp] theorem isRoot_iff {t : Transform} : t.isRoot = true ↔ t.parent = noAnchor :=
  beq_iff_eq

theorem isChild_iff {t u : Transform} :
    isChild t u = true ↔ u.parent ≠ noAnchor ∧ u.parent = t.anchor := by
  simp [isChild, Transform.isRoot]

theorem mem_numbered {t : Transform} {i : Nat} :
    (t, i) ∈ arena.numbered ↔ arena.transforms[i]? = some t :=
  List.mem_zipIdx_iff_getElem?

theorem mem_roots {i : Nat} :
    i ∈ arena.roots ↔ ∃ t, arena.transforms[i]? = some t ∧ t.parent = noAnchor := by
  simp [roots, mem_numbered]

theorem mem_childrenOf {parent : Transform} {i : Nat} :
    i ∈ arena.childrenOf parent ↔
      ∃ u, arena.transforms[i]? = some u ∧ isChild parent u = true := by
  simp [childrenOf, mem_numbered]

theorem mem_children {p i : Nat} :
    i ∈ arena.children p ↔ ∃ t u, arena.transforms[p]? = some t ∧
      arena.transforms[i]? = some u ∧ u.parent ≠ noAnchor ∧ u.parent = t.anchor := by
  unfold children
  cases h : arena.transforms[p]? with
  | none => simp
  | some t => simp [mem_childrenOf, isChild_iff]

theorem lt_length {i : Nat} {t : Transform} (h : arena.transforms[i]? = some t) :
    i < arena.transforms.length :=
  (List.getElem?_eq_some_iff.mp h).1

theorem nodup_numbers (arena : Arena) : (arena.numbered.map Prod.snd).Nodup := by
  rw [numbered, List.zipIdx_map_snd]
  exact List.nodup_range'

theorem nodup_roots (arena : Arena) : arena.roots.Nodup :=
  (List.filter_sublist.map Prod.snd).nodup arena.nodup_numbers

theorem nodup_children (arena : Arena) (p : Nat) : (arena.children p).Nodup := by
  unfold children
  cases arena.transforms[p]? with
  | none => exact List.nodup_nil
  | some t =>
    refine (((Sorting.sort_perm _).trans (List.reverse_perm _)).map Prod.snd).nodup_iff.mpr ?_
    exact (List.filter_sublist.map Prod.snd).nodup arena.nodup_numbers

theorem not_mem_roots_of_mem_children {p i : Nat} (h : i ∈ arena.children p) :
    i ∉ arena.roots := by
  obtain ⟨_, u, _, hu, hne, _⟩ := mem_children.mp h
  rw [mem_roots]
  rintro ⟨t, ht, hroot⟩
  obtain rfl : t = u := Option.some.inj (ht.symm.trans hu)
  exact hne hroot

theorem ownerName?_eq_none_iff {t : Transform} :
    arena.ownerName? t.owner = none ↔ ¬ arena.Owned t := by
  simp [ownerName?, Owned]

theorem owned_iff {t : Transform} :
    arena.Owned t ↔ ∃ name, arena.ownerName? t.owner = some name := by
  rw [← Option.isSome_iff_exists, ← not_iff_not, ← ownerName?_eq_none_iff]
  simp

end Arena

end SceneAudit
