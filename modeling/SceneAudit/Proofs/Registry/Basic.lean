import SceneAudit.Proofs.Lookup
import SceneAudit.Proofs.Registry.SidecarLines
import SceneAudit.Registry.Basic
import SceneAudit.Registry.UsedSet

/-! # Laws of the registry and of used identifiers

Identifiers of sidecars are not empty. While all identifiers are distinct, registering adds one
artifact and replaces none, and an identifier is looked up wherever it was registered. Marking adds
one identifier to the used ones.
-/

namespace SceneAudit

theorem Identifier.scan?_ne_nil {text identifier : Text} (h : scan? text = some identifier) :
    identifier ≠ [] := by
  obtain ⟨line, -, hline⟩ := List.exists_of_findSome?_eq_some h
  exact (carries_of_ofLine? hline).ne_nil

namespace Registry

variable {registry : Registry} {identifier location : Text}

theorem sidecarIdentifier?_ne_nil {sidecar : Option Bytes}
    (h : sidecarIdentifier? sidecar = some identifier) : identifier ≠ [] := by
  obtain ⟨text, -, hscan⟩ := Option.bind_eq_some_iff.mp h
  exact Identifier.scan?_ne_nil hscan

theorem insert_artifacts (h : identifier ∉ registry.artifacts.map Artifact.identifier) :
    (registry.insert identifier location).artifacts =
      ⟨identifier, location⟩ :: registry.artifacts := by
  rw [insert, List.filter_eq_self.mpr]
  intro a ha
  refine decide_eq_true ?_
  rintro rfl
  exact h (List.mem_map_of_mem ha)

theorem lookup_eq_some_iff (h : (registry.artifacts.map Artifact.identifier).Nodup) :
    registry.lookup identifier = some location ↔ ⟨identifier, location⟩ ∈ registry.artifacts := by
  simp only [lookup, Option.map_eq_some_iff, Lookup.find?_eq_some_iff h]
  constructor
  · rintro ⟨a, ⟨ha, rfl⟩, rfl⟩
    exact ha
  · intro ha
    exact ⟨_, ⟨ha, rfl⟩, rfl⟩

def identifiers (registry : Registry) : List Text :=
  registry.artifacts.map Artifact.identifier

theorem mem_identifiers_of_lookup (h : registry.lookup identifier = some location) :
    identifier ∈ registry.identifiers := by
  obtain ⟨a, ha, -⟩ := Option.map_eq_some_iff.mp h
  obtain ⟨hmem, rfl⟩ := Lookup.of_find? ha
  exact List.mem_map_of_mem hmem

theorem mem_artifacts_insert {a : Artifact} :
    a ∈ (registry.insert identifier location).artifacts ↔ a = ⟨identifier, location⟩ ∨
      a ∈ registry.artifacts ∧ a.identifier ≠ identifier := by
  simp [insert]

theorem mem_identifiers_insert {other : Text} :
    other ∈ (registry.insert identifier location).identifiers ↔
      other = identifier ∨ other ∈ registry.identifiers := by
  unfold identifiers
  constructor
  · intro h
    obtain ⟨a, ha, rfl⟩ := List.mem_map.mp h
    rcases mem_artifacts_insert.mp ha with rfl | ⟨ha, -⟩
    · exact Or.inl rfl
    · exact Or.inr (List.mem_map_of_mem ha)
  · intro h
    by_cases hsame : other = identifier
    · exact List.mem_map.mpr ⟨_, mem_artifacts_insert.mpr (Or.inl rfl), hsame.symm⟩
    · obtain ⟨a, ha, rfl⟩ := List.mem_map.mp (h.resolve_left hsame)
      exact List.mem_map_of_mem (mem_artifacts_insert.mpr (Or.inr ⟨ha, hsame⟩))

theorem nodup_identifiers_insert (h : registry.identifiers.Nodup) :
    (registry.insert identifier location).identifiers.Nodup := by
  unfold identifiers insert
  rw [List.map_cons, List.nodup_cons]
  constructor
  · simp
  · exact (List.filter_sublist.map Artifact.identifier).nodup h

theorem size_insert_le (registry : Registry) (identifier location : Text) :
    (registry.insert identifier location).size ≤ registry.size + 1 :=
  Nat.succ_le_succ (List.length_filter_le _ _)

end Registry

namespace UsedSet

/-- Marks are added and none is taken back. -/
def Grows (used used' : UsedSet) : Prop :=
  ∀ identifier, used.contains identifier = true → used'.contains identifier = true

theorem Grows.refl (used : UsedSet) : used.Grows used :=
  fun _ => id

theorem contains_mark {used : UsedSet} {marked identifier : Text} :
    (used.mark marked).1.contains identifier = true ↔
      identifier = marked ∨ used.contains identifier = true := by
  unfold mark
  split
  · rename_i hmarked
    refine ⟨Or.inr, ?_⟩
    rintro (rfl | h)
    · exact hmarked
    · exact h
  · simp [contains]

theorem contains_iff {used : UsedSet} {identifier : Text} :
    used.contains identifier = true ↔ identifier ∈ used.identifiers :=
  List.contains_iff_mem

theorem mem_mark {used : UsedSet} {marked identifier : Text} :
    identifier ∈ (used.mark marked).1.identifiers ↔
      identifier = marked ∨ identifier ∈ used.identifiers := by
  rw [← contains_iff, ← contains_iff, contains_mark]

theorem nodup_mark {used : UsedSet} {marked : Text} (h : used.identifiers.Nodup) :
    (used.mark marked).1.identifiers.Nodup := by
  unfold mark contains
  split
  · exact h
  · rename_i hnew
    exact List.nodup_cons.mpr ⟨by simpa using hnew, h⟩

theorem grows_mark (used : UsedSet) (marked : Text) : used.Grows (used.mark marked).1 :=
  fun _ h => contains_mark.mpr (Or.inr h)

end UsedSet

end SceneAudit
