import Mathlib.Algebra.GroupWithZero.Nat
import SceneAudit.Proofs.Hierarchy.Visits

/-! # What a hierarchy lists

A walk lists exactly the transforms to which a chain of owned transforms leads from a root, each of
them once. It reports each transform without an owner that such a chain comes to, and the lines and
issues together are as many as the transforms that the walk is sent to.
-/

namespace SceneAudit

open Scene

namespace Arena

variable {arena : Arena}

/-- The numbers of the transforms that the walk lists, in order. -/
def emitted (arena : Arena) : List Nat :=
  arena.walk.filterMap Visit.listed?

/-- The numbers of the transforms that the walk finds without an owner, in order. -/
def dangling (arena : Arena) : List Nat :=
  arena.walk.filterMap Visit.ownerless?

/-- A line that the transform with a number may have: dashes and the name of its owner. -/
def LineOf (arena : Arena) (i : Nat) (line : Text) : Prop :=
  ∃ t name depth, arena.transforms[i]? = some t ∧ arena.ownerName? t.owner = some name ∧
    line = List.replicate depth '-' ++ name

/-- The issue that reports the transform with a number to have no owner. -/
def DanglingOf (arena : Arena) (i : Nat) (issue : Issue) : Prop :=
  ∃ t, arena.transforms[i]? = some t ∧ issue = .dangling t.anchor t.owner

theorem faithful_of_mem_walk {v : Visit} (h : v ∈ arena.walk) : Faithful arena v :=
  arena.walks_walk.faithful (by simp) v (List.mem_reverse.mpr h)

theorem sent_of_mem_walk {v : Visit} (h : v ∈ arena.walk) : Sent arena v.number :=
  arena.walks_walk.sent (fun _ => .inl) (by simp) v (List.mem_reverse.mpr h)

theorem walk_perm (arena : Arena) :
    (arena.walk.map Visit.number).Perm
      (arena.roots ++ arena.emitted.flatMap arena.children) := by
  obtain ⟨new, hnew, hp⟩ := arena.walks_walk.perm
  obtain rfl : arena.walk.reverse = new := by rw [hnew, List.append_nil]
  rw [List.map_reverse, List.filterMap_reverse] at hp
  have he : arena.emitted.reverse.Perm arena.emitted := List.reverse_perm _
  exact ((List.reverse_perm _).symm.trans hp).trans ((he.flatMap_right _).append_left _)

theorem emitted_iff {i : Nat} :
    i ∈ arena.emitted ↔ ∃ v ∈ arena.walk, v.number = i ∧ ∃ name, v.outcome = .listed name := by
  simp [emitted, Visit.listed?_eq_some_iff]

theorem dangling_iff {i : Nat} :
    i ∈ arena.dangling ↔ ∃ v ∈ arena.walk, v.number = i ∧ v.outcome = .ownerless := by
  simp [dangling, Visit.ownerless?_eq_some_iff]

theorem linked_of_mem_emitted {i : Nat} (h : i ∈ arena.emitted) : Linked arena i := by
  obtain ⟨v, hv, rfl, name, hname⟩ := emitted_iff.mp h
  obtain ⟨t, ht, ho⟩ := faithful_of_mem_walk hv
  rw [hname] at ho
  exact (sent_of_mem_walk hv).linked ht (owned_iff.mpr ⟨name, ho⟩)

theorem nodup_of_first {f : Visit → Option Nat}
    (hf : ∀ {v i}, f v = some i → v.number = i ∧ v.outcome ≠ .revisited) :
    (arena.walk.filterMap f).Nodup := by
  have hlog := arena.walks_walk.pairwise_first .nil
  rw [List.pairwise_reverse] at hlog
  refine hlog.filterMap f fun v w h i hi j hj => ?_
  obtain ⟨rfl, _⟩ := hf hi
  obtain ⟨rfl, hne⟩ := hf hj
  exact (h hne).symm

theorem nodup_emitted (arena : Arena) : arena.emitted.Nodup :=
  nodup_of_first fun h => by
    obtain ⟨hi, name, hname⟩ := Visit.listed?_eq_some_iff.mp h
    exact ⟨hi, by simp [hname]⟩

theorem nodup_dangling (arena : Arena) : arena.dangling.Nodup :=
  nodup_of_first fun h => by
    obtain ⟨hi, hout⟩ := Visit.ownerless?_eq_some_iff.mp h
    exact ⟨hi, by simp [hout]⟩

theorem first_of_visited {i : Nat} (h : visited arena.walk.reverse i = true) :
    ∃ v ∈ arena.walk, v.number = i ∧ v.outcome ≠ .revisited := by
  obtain ⟨v, hv, rfl⟩ := visited_iff.mp h
  simpa using arena.walks_walk.exists_first (by simp) v hv

theorem emitted_or_dangling_of_visited {i : Nat} {t : Transform}
    (h : visited arena.walk.reverse i = true) (ht : arena.transforms[i]? = some t) :
    arena.Owned t ∧ i ∈ arena.emitted ∨ ¬ arena.Owned t ∧ i ∈ arena.dangling := by
  obtain ⟨v, hv, rfl, hfirst⟩ := first_of_visited h
  obtain ⟨u, hu, hout⟩ := faithful_of_mem_walk hv
  obtain rfl : t = u := Option.some.inj (ht.symm.trans hu)
  cases hcase : v.outcome with
  | listed name =>
    rw [hcase] at hout
    exact .inl ⟨owned_iff.mpr ⟨name, hout⟩, emitted_iff.mpr ⟨v, hv, rfl, name, hcase⟩⟩
  | revisited => exact absurd hcase hfirst
  | ownerless =>
    rw [hcase] at hout
    exact .inr ⟨ownerName?_eq_none_iff.mp hout, dangling_iff.mpr ⟨v, hv, rfl, hcase⟩⟩

theorem mem_emitted_of_visited {i : Nat} {t : Transform} (h : visited arena.walk.reverse i = true)
    (ht : arena.transforms[i]? = some t) (ho : arena.Owned t) : i ∈ arena.emitted :=
  ((emitted_or_dangling_of_visited h ht).resolve_right fun hd => hd.1 ho).2

theorem mem_dangling_of_visited {i : Nat} {t : Transform} (h : visited arena.walk.reverse i = true)
    (ht : arena.transforms[i]? = some t) (ho : ¬ arena.Owned t) : i ∈ arena.dangling :=
  ((emitted_or_dangling_of_visited h ht).resolve_left fun he => ho he.1).2

theorem visited_root {i : Nat} (h : i ∈ arena.roots) : visited arena.walk.reverse i = true :=
  arena.walks_walk.visited_of_mem h

theorem visited_child {p i : Nat} (hp : p ∈ arena.emitted) (h : i ∈ arena.children p) :
    visited arena.walk.reverse i = true := by
  obtain ⟨v, hv, hlisted⟩ := List.mem_filterMap.mp hp
  rcases arena.walks_walk.visited_children (List.mem_reverse.mpr hv) with hv | hc
  · cases hv
  · exact hc p hlisted i h

/-- The walk lists exactly the transforms that a chain of owned transforms leads to. -/
theorem mem_emitted_iff {i : Nat} : i ∈ arena.emitted ↔ Linked arena i := by
  refine ⟨linked_of_mem_emitted, fun h => ?_⟩
  induction h with
  | root ht hroot ho =>
    exact mem_emitted_of_visited (visited_root (mem_roots.mpr ⟨_, ht, hroot⟩)) ht ho
  | child _ ht hu hne heq ho ih =>
    have hchild := visited_child ih (mem_children.mpr ⟨_, _, ht, hu, hne, heq⟩)
    exact mem_emitted_of_visited hchild hu ho

/-- The walk finds exactly those roots and children of listed transforms without an owner that have
none. -/
theorem mem_dangling_iff {i : Nat} :
    i ∈ arena.dangling ↔ ∃ t, arena.transforms[i]? = some t ∧ ¬ arena.Owned t ∧
      (t.parent = noAnchor ∨ ∃ p ∈ arena.emitted, i ∈ arena.children p) := by
  constructor
  · intro h
    obtain ⟨v, hv, rfl, hout⟩ := dangling_iff.mp h
    obtain ⟨t, ht, ho⟩ := faithful_of_mem_walk hv
    rw [hout] at ho
    refine ⟨t, ht, ownerName?_eq_none_iff.mp ho, ?_⟩
    rcases sent_of_mem_walk hv with hr | ⟨p, hp, hc⟩
    · obtain ⟨u, hu, hroot⟩ := mem_roots.mp hr
      obtain rfl : t = u := Option.some.inj (ht.symm.trans hu)
      exact .inl hroot
    · exact .inr ⟨p, mem_emitted_iff.mpr hp, hc⟩
  · rintro ⟨t, ht, ho, hroot | ⟨p, hp, hc⟩⟩
    · exact mem_dangling_of_visited (visited_root (mem_roots.mpr ⟨t, ht, hroot⟩)) ht ho
    · exact mem_dangling_of_visited (visited_child hp hc) ht ho

theorem issue?_revisited {i : Nat} {t : Transform} (ht : arena.transforms[i]? = some t)
    (depth : Nat) : arena.issue? ⟨i, depth, .revisited⟩ = some (.cycle t.anchor) := by
  simp [issue?, ht]

theorem issue?_ownerless {i : Nat} {t : Transform} (ht : arena.transforms[i]? = some t)
    (depth : Nat) : arena.issue? ⟨i, depth, .ownerless⟩ = some (.dangling t.anchor t.owner) := by
  simp [issue?, ht]

section Log

variable {log : List Visit}

theorem forall₂_lineOf (hlog : ∀ v ∈ log, Faithful arena v) :
    List.Forall₂ (LineOf arena) (log.filterMap Visit.listed?) (log.filterMap line?) := by
  induction log with
  | nil => exact .nil
  | cons v log ih =>
    obtain ⟨⟨t, ht, ho⟩, hrest⟩ := List.forall_mem_cons.mp hlog
    rcases v with ⟨number, depth, name | _ | _⟩
    · exact .cons ⟨t, name, depth, ht, ho, rfl⟩ (ih hrest)
    · exact ih hrest
    · exact ih hrest

theorem forall₂_danglingOf (hlog : ∀ v ∈ log, Faithful arena v) :
    List.Forall₂ (DanglingOf arena) (log.filterMap Visit.ownerless?)
      ((log.filterMap arena.issue?).filter fun issue => !issue.isCycle) := by
  induction log with
  | nil => exact .nil
  | cons v log ih =>
    obtain ⟨⟨t, ht, ho⟩, hrest⟩ := List.forall_mem_cons.mp hlog
    rcases v with ⟨number, depth, name | _ | _⟩
    · exact ih hrest
    · rw [List.filterMap_cons_some (issue?_revisited ht depth)]
      exact ih hrest
    · rw [List.filterMap_cons_some (issue?_ownerless ht depth)]
      exact .cons ⟨t, ht, rfl⟩ (ih hrest)

theorem isSome_line?_eq {v : Visit} (h : Faithful arena v) :
    (line? v).isSome = !(arena.issue? v).isSome := by
  obtain ⟨t, ht, _⟩ := h
  rcases v with ⟨number, depth, name | _ | _⟩ <;> simp_all [line?, issue?]

theorem length_lines_add_issues (hlog : ∀ v ∈ log, Faithful arena v) :
    (log.filterMap line?).length + (log.filterMap arena.issue?).length = log.length := by
  induction log with
  | nil => rfl
  | cons v log ih =>
    obtain ⟨hv, hrest⟩ := List.forall_mem_cons.mp hlog
    have hone := isSome_line?_eq hv
    have hlen := ih hrest
    cases hl : line? v <;> cases hi : arena.issue? v <;>
      simp [hl, hi] at hone ⊢ <;> omega

end Log

theorem length_walk (arena : Arena) :
    arena.walk.length =
      arena.roots.length + (arena.emitted.map fun i => (arena.children i).length).sum := by
  have h := arena.walk_perm.length_eq
  rwa [List.length_map, List.length_append, List.length_flatMap] at h

theorem length_roots (arena : Arena) :
    arena.roots.length = arena.transforms.countP fun t => t.parent = noAnchor := by
  calc arena.roots.length = arena.numbered.countP fun e => e.1.isRoot := by
        rw [roots, List.length_map, List.countP_eq_length_filter]
    _ = (arena.numbered.map Prod.fst).countP Transform.isRoot := by rw [List.countP_map]; rfl
    _ = arena.transforms.countP Transform.isRoot := by rw [numbered, List.zipIdx_map_fst]
    _ = _ := List.countP_congr fun t _ => by simp

end Arena

open Arena

/-- The walk over the transforms of any scene comes to an end. It lists each transform once to which
a chain of owned transforms leads from a root, and no other; it reports each root and each child of
a listed transform once that has no owner, and no other transform as ownerless; and each time it is
sent to a transform, there is one line or one issue. -/
theorem hierarchy_exact (scene : Scene) :
    let arena := Arena.ofScene scene
    let hierarchy := Hierarchy.ofScene scene
    Walks arena 0 [] arena.roots arena.walk.reverse ∧
    arena.transforms.Perm scene.transforms ∧
    (List.Forall₂ (LineOf arena) arena.emitted hierarchy.lines ∧
      arena.emitted.Nodup ∧ ∀ i, i ∈ arena.emitted ↔ Linked arena i) ∧
    (List.Forall₂ (DanglingOf arena) arena.dangling
        (hierarchy.issues.filter fun issue => !issue.isCycle) ∧
      arena.dangling.Nodup ∧
      ∀ i, i ∈ arena.dangling ↔ ∃ t, arena.transforms[i]? = some t ∧
        (∀ o ∈ scene.objects, o.anchor ≠ t.owner) ∧
        (t.parent = noAnchor ∨ ∃ p ∈ arena.emitted, i ∈ arena.children p)) ∧
    (∀ v ∈ arena.walk, (line? v).isSome = !(arena.issue? v).isSome) ∧
    hierarchy.lines.length + hierarchy.issues.length =
      (scene.transforms.countP fun t => t.parent = noAnchor) +
        (arena.emitted.map fun i => (arena.children i).length).sum := by
  intro arena hierarchy
  have hfaithful : ∀ v ∈ arena.walk, Faithful arena v := fun _ => faithful_of_mem_walk
  have hperm : arena.transforms.Perm scene.transforms := Sorting.sort_perm _
  refine ⟨arena.walks_walk, hperm,
    ⟨forall₂_lineOf hfaithful, arena.nodup_emitted, fun _ => mem_emitted_iff⟩,
    ⟨forall₂_danglingOf hfaithful, arena.nodup_dangling, fun i => ?_⟩,
    fun v hv => isSome_line?_eq (hfaithful v hv), ?_⟩
  · have howned : ∀ t, ¬ arena.Owned t ↔ ∀ o ∈ scene.objects, o.anchor ≠ t.owner := by
      intro t; simp [Owned, arena, Arena.ofScene, Arena.ofEntities]
    simp only [mem_dangling_iff, howned]
  · calc hierarchy.lines.length + hierarchy.issues.length = arena.walk.length :=
        length_lines_add_issues hfaithful
      _ = arena.roots.length + (arena.emitted.map fun i => (arena.children i).length).sum :=
        arena.length_walk
      _ = _ := by rw [length_roots, hperm.countP_eq]

end SceneAudit
