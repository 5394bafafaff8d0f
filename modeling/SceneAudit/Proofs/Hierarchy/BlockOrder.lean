import SceneAudit.Proofs.Hierarchy.Forest
import SceneAudit.Proofs.Lookup
import SceneAudit.Proofs.Scene.Blocks

/-! # Independence of the order of blocks

The arena sorts its transforms and looks owners up by their anchors. If no two transforms have
anchors with one key and no two objects have one anchor, neither depends on the order in which the
blocks of a scene are written, and so the walk does not either.
-/

namespace SceneAudit

open Scene

namespace Arena

theorem sort_transforms_eq {transforms transforms' : List Transform}
    (hkeys : DistinctKeys transforms) (hp : transforms.Perm transforms') :
    Sorting.sort anchorLe transforms = Sorting.sort anchorLe transforms' := by
  refine Sorting.sort_eq_of_perm hp ?_
  intro t ht u hu htu hut
  exact List.inj_on_of_nodup_map hkeys ht hu (AnchorKey.le_antisymm htu hut)

theorem ownerName?_eq_some_iff {arena : Arena} (hobjects : (arena.objects.map Object.anchor).Nodup)
    {owner name : Text} :
    arena.ownerName? owner = some name ↔ (⟨owner, name⟩ : Object) ∈ arena.objects := by
  have hreverse : (arena.objects.reverse.map Object.anchor).Nodup := by
    rw [List.map_reverse]
    exact List.nodup_reverse.mpr hobjects
  simp only [ownerName?, Option.map_eq_some_iff, Lookup.find?_eq_some_iff hreverse,
    List.mem_reverse]
  constructor
  · rintro ⟨o, ⟨hmem, rfl⟩, rfl⟩
    exact hmem
  · intro hmem
    exact ⟨_, ⟨hmem, rfl⟩, rfl⟩

section SameTransforms

variable {transforms : List Transform} {objects objects' : List Object}

theorem ownerName?_eq_of_perm (hobjects : (objects.map Object.anchor).Nodup)
    (hp : objects.Perm objects') (owner : Text) :
    (Arena.mk transforms objects).ownerName? owner =
      (Arena.mk transforms objects').ownerName? owner := by
  ext name
  rw [ownerName?_eq_some_iff hobjects, ownerName?_eq_some_iff ((hp.map _).nodup_iff.mp hobjects)]
  exact hp.mem_iff

variable (hname : ∀ owner, (Arena.mk transforms objects).ownerName? owner =
  (Arena.mk transforms objects').ownerName? owner)

include hname

theorem visit_eq_of_ownerName? (fuel depth : Nat) :
    (Arena.mk transforms objects).visit fuel depth =
      (Arena.mk transforms objects').visit fuel depth := by
  induction fuel generalizing depth with
  | zero => rfl
  | succ fuel ih =>
    funext log number
    rw [visit, visit, ih]
    simp only [hname]
    rfl

theorem walk_eq_of_ownerName? :
    (Arena.mk transforms objects).walk = (Arena.mk transforms objects').walk := by
  rw [walk, walk, visit_eq_of_ownerName? hname]
  rfl

end SameTransforms

end Arena

/-- The walk over entities with distinct keys and anchors does not depend on their order. -/
theorem ofEntities_eq_of_perm {objects objects' : List Object}
    {transforms transforms' : List Transform} (hkeys : Arena.DistinctKeys transforms)
    (hobjects : (objects.map Object.anchor).Nodup) (ho : objects.Perm objects')
    (ht : transforms.Perm transforms') :
    (Hierarchy.ofArena (Arena.ofEntities objects transforms)).lines =
        (Hierarchy.ofArena (Arena.ofEntities objects' transforms')).lines ∧
      (Hierarchy.ofArena (Arena.ofEntities objects transforms)).issues =
        (Hierarchy.ofArena (Arena.ofEntities objects' transforms')).issues := by
  rw [Arena.ofEntities, Arena.ofEntities, ← Arena.sort_transforms_eq hkeys ht]
  have hwalk : (Arena.mk (Sorting.sort Arena.anchorLe transforms) objects).walk =
      (Arena.mk (Sorting.sort Arena.anchorLe transforms) objects').walk :=
    Arena.walk_eq_of_ownerName? (Arena.ownerName?_eq_of_perm hobjects ho)
  constructor
  · simp only [Hierarchy.ofArena, hwalk]
  · simp only [Hierarchy.ofArena, hwalk]
    rfl

/-- Putting the blocks of a scene text in another order changes nothing of its hierarchy. -/
theorem hierarchy_eq_of_perm_blocks (reserved : List Text) {blocks blocks' : List Text}
    (hblocks : ∀ b ∈ blocks, IsBlock b) (hp : blocks.Perm blocks')
    (hkeys : Arena.DistinctKeys (parse reserved blocks.flatten).transforms)
    (hobjects : ((parse reserved blocks.flatten).objects.map Object.anchor).Nodup) :
    let scene := parse reserved blocks.flatten
    let scene' := parse reserved blocks'.flatten
    (Hierarchy.ofScene scene).lines = (Hierarchy.ofScene scene').lines ∧
      (Hierarchy.ofScene scene).issues = (Hierarchy.ofScene scene').issues ∧
      (Hierarchy.ofScene scene).render = (Hierarchy.ofScene scene').render ∧
      scene.malformed = scene'.malformed := by
  intro scene scene'
  obtain ⟨hlines, hissues⟩ := ofEntities_eq_of_perm hkeys hobjects
    (parse_objects_perm hblocks hp) (parse_transforms_perm hblocks hp)
  refine ⟨hlines, hissues, ?_, parse_malformed_eq hblocks hp⟩
  exact congrArg Text.unlines hlines

/-- A child written in front of its parent and a block that cannot be read, put the other way round.
-/
theorem hierarchy_eq_of_reversed_blocks :
    let blocks := ["--- !u!4 &20\nTransform:\n  m_GameObject: {fileID: 2}\n" ++
        "  m_Father: {fileID: 10}\n",
      "--- !u!4 &10\nTransform:\n  m_GameObject: {fileID: 1}\n", "--- &7\n: [\n",
      "--- !u!1 &1\nGameObject:\n  m_Name: Top\n", "--- &2\nGameObject:\n  m_Name: Low\n"].map
        String.toList
    let scene := parse [] blocks.flatten
    let scene' := parse [] blocks.reverse.flatten
    (∀ b ∈ blocks, IsBlock b) ∧ Arena.DistinctKeys scene.transforms ∧
      (scene.objects.map Object.anchor).Nodup ∧
      (Hierarchy.ofScene scene).lines = ["Top".toList, "-Low".toList] ∧ scene.malformed = 1 ∧
      ((Hierarchy.ofScene scene).lines = (Hierarchy.ofScene scene').lines ∧
        (Hierarchy.ofScene scene).issues = (Hierarchy.ofScene scene').issues ∧
        (Hierarchy.ofScene scene).render = (Hierarchy.ofScene scene').render ∧
        scene.malformed = scene'.malformed) := by
  simp -zeta only [List.map_cons, List.map_nil, String.toList_append]
  repeat rw [String.toList_ofList]
  intro blocks scene scene'
  have hblocks : ∀ b ∈ blocks, IsBlock b := by decide +kernel
  obtain ⟨hentities, hmalformed⟩ : scene.entities = [.transform ⟨['2', '0'], ['2'], ['1', '0']⟩,
      .transform ⟨['1', '0'], ['1'], ['0']⟩, .object ⟨['1'], ['T', 'o', 'p']⟩,
      .object ⟨['2'], ['L', 'o', 'w']⟩] ∧ scene.malformed = 1 := by decide +kernel
  have hkeys : Arena.DistinctKeys scene.transforms := by
    rw [Scene.transforms, hentities]
    decide
  have hobjects : (scene.objects.map Object.anchor).Nodup := by
    rw [Scene.objects, hentities]
    decide
  have hlines : (Hierarchy.ofScene scene).lines = [['T', 'o', 'p'], ['-', 'L', 'o', 'w']] := by
    rw [Hierarchy.ofScene, Arena.ofScene, Scene.objects, Scene.transforms, hentities]
    decide +kernel
  refine ⟨hblocks, hkeys, hobjects, hlines, hmalformed, ?_⟩
  exact hierarchy_eq_of_perm_blocks [] hblocks (List.reverse_perm blocks).symm hkeys hobjects

end SceneAudit
