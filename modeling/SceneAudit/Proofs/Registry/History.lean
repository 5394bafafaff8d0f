import Mathlib.Data.List.Dedup
import Mathlib.Data.List.Induction
import SceneAudit.Proofs.Registry.Identifiers

/-! # The registry as a map of last writes

Every operation on a registry is an `Operation`, and a history is a list of them. What a history
writes decides all later answers: the registry that it leaves represents the map in which the last
write of an identifier counts.
-/

namespace SceneAudit.Registry

/-- What a registry is told or asked. -/
inductive Operation where
  | insert (identifier location : Text)
  | register (artifact : Text) (sidecar : Option Bytes)
  | lookup (identifier : Text)
  | size
  | isEmpty
  | records
  deriving DecidableEq

inductive Answer where
  | done
  | registered (identifier : Option Text)
  | location (location : Option Text)
  | count (n : Nat)
  | flag (b : Bool)
  | records (artifacts : List Artifact)
  deriving DecidableEq

def step (registry : Registry) : Operation → Registry × Answer
  | .insert identifier location => (registry.insert identifier location, .done)
  | .register artifact sidecar =>
      ((registry.register artifact sidecar).1, .registered (registry.register artifact sidecar).2)
  | .lookup identifier => (registry, .location (registry.lookup identifier))
  | .size => (registry, .count registry.size)
  | .isEmpty => (registry, .flag registry.isEmpty)
  | .records => (registry, .records registry.artifacts)

/-- The registry that a history leaves. -/
def after (registry : Registry) (history : List Operation) : Registry :=
  history.foldl (fun r operation => (r.step operation).1) registry

/-- The answers to operations in turn. -/
def answers (registry : Registry) : List Operation → List Answer
  | [] => []
  | operation :: rest => (registry.step operation).2 :: answers (registry.step operation).1 rest

/-- What an operation stores. -/
def Operation.written? : Operation → Option Artifact
  | .insert identifier location => some ⟨identifier, location⟩
  | .register artifact sidecar =>
      (sidecarIdentifier? sidecar).map fun identifier => ⟨identifier, artifact⟩
  | _ => none

/-- What a history stores, the earliest first. -/
def written (history : List Operation) : List Artifact :=
  history.filterMap Operation.written?

def lastLocation? (writes : List Artifact) (identifier : Text) : Option Text :=
  (writes.reverse.find? fun a => a.identifier = identifier).map Artifact.location

/-- The answers of a map of last writes. -/
inductive Expects (writes : List Artifact) : Operation → Answer → Prop where

  | insert {identifier location : Text} : Expects writes (.insert identifier location) .done

  | register {artifact : Text} {sidecar : Option Bytes} :
      Expects writes (.register artifact sidecar) (.registered (sidecarIdentifier? sidecar))

  | lookup {identifier : Text} :
      Expects writes (.lookup identifier) (.location (lastLocation? writes identifier))

  | size : Expects writes .size (.count (writes.map Artifact.identifier).dedup.length)

  | isEmpty : Expects writes .isEmpty (.flag writes.isEmpty)

  | records {artifacts : List Artifact} : (artifacts.map Artifact.identifier).Nodup →
      (∀ a, a ∈ artifacts ↔ lastLocation? writes a.identifier = some a.location) →
      Expects writes .records (.records artifacts)

/-- A sidecar that is missing, is not text or has no identifier. -/
inductive Unidentified : Option Bytes → Prop where

  | missing : Unidentified none

  | undecodable {bytes : Bytes} : Utf8.decode? bytes = none → Unidentified (some bytes)

  | anonymous {bytes : Bytes} {text : Text} : Utf8.decode? bytes = some text →
      Identifier.scan? text = none → Unidentified (some bytes)

theorem unidentified_iff {sidecar : Option Bytes} :
    Unidentified sidecar ↔ sidecarIdentifier? sidecar = none := by
  constructor
  · intro h
    cases h with
    | missing => rfl
    | undecodable hbytes => simp [sidecarIdentifier?, hbytes]
    | anonymous hbytes htext => simp [sidecarIdentifier?, hbytes, htext]
  · intro h
    cases sidecar with
    | none => exact .missing
    | some bytes =>
      rw [sidecarIdentifier?, Option.bind_some] at h
      cases hbytes : Utf8.decode? bytes with
      | none => exact .undecodable hbytes
      | some text =>
        rw [hbytes, Option.bind_some] at h
        exact .anonymous hbytes h

section Runs

variable {registry : Registry} {before later : List Operation} {operation : Operation}

theorem length_answers (registry : Registry) (history : List Operation) :
    (registry.answers history).length = history.length := by
  induction history generalizing registry with
  | nil => rfl
  | cons operation rest ih => simp [answers, ih]

theorem answers_append : registry.answers (before ++ later) =
    registry.answers before ++ (registry.after before).answers later := by
  induction before generalizing registry with
  | nil => rfl
  | cons operation rest ih => simp [answers, after, ih]

theorem after_concat : registry.after (before ++ [operation]) =
    ((registry.after before).step operation).1 := by
  simp [after]

theorem step_register (registry : Registry) (artifact : Text) (sidecar : Option Bytes) :
    registry.step (.register artifact sidecar) =
      ((sidecarIdentifier? sidecar).elim registry fun identifier =>
        registry.insert identifier artifact, .registered (sidecarIdentifier? sidecar)) := by
  rw [step, register]
  cases sidecarIdentifier? sidecar <;> rfl

theorem step_fst (registry : Registry) (operation : Operation) :
    (registry.step operation).1 =
      operation.written?.elim registry fun a => registry.insert a.identifier a.location := by
  cases operation with
  | register artifact sidecar =>
    rw [step_register, Operation.written?]
    cases sidecarIdentifier? sidecar <;> rfl
  | _ => rfl

theorem written_concat : written (before ++ [operation]) =
    written before ++ operation.written?.toList := by
  rw [written, written, List.filterMap_append]
  cases h : operation.written? <;> simp [h]

end Runs

theorem lookup_insert_of_ne {registry : Registry} {identifier location other : Text}
    (h : other ≠ identifier) :
    (registry.insert identifier location).lookup other = registry.lookup other := by
  rw [lookup, lookup, insert, List.find?_cons_of_neg (by simpa using h.symm), List.find?_filter]
  congr 2
  funext a
  by_cases ha : a.identifier = other
  · simp [ha, h]
  · simp [ha]

theorem lastLocation?_concat (writes : List Artifact) (a : Artifact) (identifier : Text) :
    lastLocation? (writes ++ [a]) identifier =
      if a.identifier = identifier then some a.location else lastLocation? writes identifier := by
  rw [lastLocation?, List.reverse_append, List.reverse_singleton, List.singleton_append,
    List.find?_cons]
  by_cases h : a.identifier = identifier
  · simp [h]
  · simp [h, lastLocation?]

theorem isSome_lastLocation? (writes : List Artifact) (identifier : Text) :
    (lastLocation? writes identifier).isSome ↔ identifier ∈ writes.map Artifact.identifier := by
  simp [lastLocation?]

/-- The registry gives the last write of each identifier, and holds each once. -/
structure Represents (registry : Registry) (writes : List Artifact) : Prop where
  nodup : registry.identifiers.Nodup
  lookup : ∀ identifier, registry.lookup identifier = lastLocation? writes identifier

namespace Represents

variable {registry : Registry} {writes : List Artifact} {history : List Operation}

theorem empty : Represents .empty [] :=
  ⟨List.nodup_nil, fun _ => rfl⟩

theorem insert (h : Represents registry writes) (a : Artifact) :
    Represents (registry.insert a.identifier a.location) (writes ++ [a]) := by
  refine ⟨nodup_identifiers_insert h.nodup, fun identifier => ?_⟩
  rw [lastLocation?_concat]
  split
  · rename_i hsame
    rw [← hsame, lookup_insert]
  · rename_i hother
    rw [lookup_insert_of_ne (Ne.symm hother), h.lookup]

theorem step (h : Represents registry (written history)) (operation : Operation) :
    Represents (registry.step operation).1 (written (history ++ [operation])) := by
  rw [step_fst, written_concat]
  cases operation.written? with
  | none => simpa using h
  | some a => exact h.insert a

theorem after (history : List Operation) : Represents (Registry.empty.after history)
    (written history) := by
  induction history using List.reverseRecOn with
  | nil => exact empty
  | append_singleton before operation ih =>
    rw [after_concat]
    exact ih.step operation

theorem mem_artifacts (h : Represents registry writes) (a : Artifact) :
    a ∈ registry.artifacts ↔ lastLocation? writes a.identifier = some a.location := by
  rw [← h.lookup, lookup_eq_some_iff h.nodup]

theorem mem_identifiers (h : Represents registry writes) (identifier : Text) :
    identifier ∈ registry.identifiers ↔ identifier ∈ writes.map Artifact.identifier := by
  rw [← isSome_lastLocation?, ← h.lookup, Registry.lookup, Option.isSome_map,
    List.find?_isSome, identifiers, List.mem_map]
  simp

theorem size_eq (h : Represents registry writes) :
    registry.size = (writes.map Artifact.identifier).dedup.length := by
  have hperm : registry.identifiers.Perm (writes.map Artifact.identifier).dedup := by
    refine (List.perm_ext_iff_of_nodup h.nodup (List.nodup_dedup _)).mpr fun identifier => ?_
    rw [List.mem_dedup, h.mem_identifiers]
  rw [← hperm.length_eq, identifiers, List.length_map, size]

theorem isEmpty_eq (h : Represents registry writes) : registry.isEmpty = writes.isEmpty := by
  rw [Bool.eq_iff_iff, Registry.isEmpty, beq_iff_eq, h.size_eq, List.length_eq_zero_iff,
    List.dedup_eq_nil, List.map_eq_nil_iff, List.isEmpty_iff]

theorem expects (h : Represents registry writes) (operation : Operation) :
    Expects writes operation (registry.step operation).2 := by
  cases operation with
  | insert identifier location => exact .insert
  | register artifact sidecar =>
    rw [step_register]
    exact .register
  | lookup identifier =>
    rw [Registry.step, h.lookup]
    exact .lookup
  | size =>
    rw [Registry.step, h.size_eq]
    exact .size
  | isEmpty =>
    rw [Registry.step, h.isEmpty_eq]
    exact .isEmpty
  | records => exact .records h.nodup h.mem_artifacts

end Represents

/-- Two registries with the same artifacts, perhaps in another order. -/
structure Alike (registry registry' : Registry) : Prop where
  nodup : registry.identifiers.Nodup
  perm : registry.artifacts.Perm registry'.artifacts

/-- The same answer, up to the order of records. -/
inductive Answer.Alike : Answer → Answer → Prop where

  | refl (answer : Answer) : Alike answer answer

  | records {artifacts artifacts' : List Artifact} : artifacts.Perm artifacts' →
      Alike (.records artifacts) (.records artifacts')

namespace Alike

variable {registry registry' : Registry} (h : Alike registry registry')

include h

theorem nodup' : registry'.identifiers.Nodup :=
  (h.perm.map Artifact.identifier).nodup_iff.mp h.nodup

theorem lookup_eq (identifier : Text) :
    registry.lookup identifier = registry'.lookup identifier := by
  refine Option.ext fun location => ?_
  rw [lookup_eq_some_iff h.nodup, lookup_eq_some_iff h.nodup', h.perm.mem_iff]

theorem insert (a : Artifact) : Alike (registry.insert a.identifier a.location)
    (registry'.insert a.identifier a.location) :=
  ⟨nodup_identifiers_insert h.nodup, (h.perm.filter _).cons _⟩

theorem step (operation : Operation) :
    Alike (registry.step operation).1 (registry'.step operation).1 ∧
      ((registry.step operation).2).Alike (registry'.step operation).2 := by
  constructor
  · rw [step_fst, step_fst]
    cases operation.written? with
    | none => exact h
    | some a => exact h.insert a
  · have hsize : registry.size = registry'.size := h.perm.length_eq
    cases operation with
    | insert identifier location => exact .refl _
    | register artifact sidecar =>
      rw [step_register, step_register]
      exact .refl _
    | lookup identifier =>
      rw [Registry.step, Registry.step, h.lookup_eq]
      exact .refl _
    | size =>
      rw [Registry.step, Registry.step, hsize]
      exact .refl _
    | isEmpty =>
      rw [Registry.step, Registry.step, isEmpty, isEmpty, hsize]
      exact .refl _
    | records => exact .records h.perm

/-- No history tells the two apart. -/
theorem answers (history : List Operation) :
    List.Forall₂ Answer.Alike (registry.answers history) (registry'.answers history) := by
  induction history generalizing registry registry' with
  | nil => exact .nil
  | cons operation rest ih => exact .cons (h.step operation).2 (ih (h.step operation).1)

end Alike

theorem insert_comm {registry : Registry} (h : registry.identifiers.Nodup) {a b : Artifact}
    (hne : a.identifier ≠ b.identifier) :
    Alike ((registry.insert a.identifier a.location).insert b.identifier b.location)
      ((registry.insert b.identifier b.location).insert a.identifier a.location) := by
  refine ⟨nodup_identifiers_insert (nodup_identifiers_insert h), ?_⟩
  simp only [insert]
  rw [List.filter_cons_of_pos (by simpa using hne),
    List.filter_cons_of_pos (by simpa using hne.symm), List.filter_comm]
  exact List.Perm.swap _ _ _

theorem answer_of_written {operation : Operation} {a : Artifact} (h : operation.written? = some a)
    (registry registry' : Registry) :
    (registry.step operation).2 = (registry'.step operation).2 := by
  cases operation with
  | insert identifier location => rfl
  | register artifact sidecar => rw [step_register, step_register]
  | _ => contradiction

/-- A registry is a map of last writes. Each operation of a run is answered from what was written
before it. A registration without an identifier is answered by none and changes no other answer, and
of two adjacent writes of different identifiers either may come first. -/
theorem last_write_wins :
    (∀ (before later : List Operation) (operation : Operation), ∃ earlier answer rest,
      Registry.empty.answers (before ++ operation :: later) = earlier ++ answer :: rest ∧
        earlier.length = before.length ∧ Expects (written before) operation answer) ∧
    (∀ (before later : List Operation) (artifact : Text) (sidecar : Option Bytes),
      Unidentified sidecar → ∃ earlier rest,
        Registry.empty.answers (before ++ .register artifact sidecar :: later) =
          earlier ++ .registered none :: rest ∧
        Registry.empty.answers (before ++ later) = earlier ++ rest ∧
        earlier.length = before.length) ∧
    (∀ (before later : List Operation) (first second : Operation) (a b : Artifact),
      first.written? = some a → second.written? = some b → a.identifier ≠ b.identifier →
        ∃ earlier answer answer' rest rest',
          Registry.empty.answers (before ++ first :: second :: later) =
            earlier ++ answer :: answer' :: rest ∧
          Registry.empty.answers (before ++ second :: first :: later) =
            earlier ++ answer' :: answer :: rest' ∧
          earlier.length = before.length ∧ List.Forall₂ Answer.Alike rest rest') := by
  refine ⟨?_, ?_, ?_⟩
  · intro before later operation
    refine ⟨_, _, _, answers_append, length_answers _ _, ?_⟩
    exact (Represents.after before).expects operation
  · intro before later artifact sidecar hsidecar
    rw [unidentified_iff] at hsidecar
    have hstep (registry : Registry) : registry.step (.register artifact sidecar) =
        (registry, .registered none) := by
      rw [step_register, hsidecar]
      rfl
    refine ⟨_, _, ?_, answers_append, length_answers _ _⟩
    rw [answers_append, answers, hstep]
  · intro before later first second a b hfirst hsecond hne
    let registry := Registry.empty.after before
    have hcomm := insert_comm (Represents.after before).nodup hne
    refine ⟨_, _, _, _, ((registry.step second).1.step first).1.answers later, answers_append, ?_,
      length_answers _ _, ?_⟩
    · rw [answers_append, answers, answers,
        answer_of_written hfirst registry (registry.step second).1,
        answer_of_written hsecond (registry.step first).1 registry]
    · simp only [step_fst, hfirst, hsecond]
      exact hcomm.answers later

/-- Two scripts of one identifier and a third, with a script that has no sidecar between them. -/
theorem last_write_wins_of_collision :
    let first := Operation.insert ['a'] "A.cs".toList
    let missing := Operation.register "B.cs".toList none
    let second := Operation.register "C.cs".toList (some (Utf8.encode "guid: a\n".toList))
    let third := Operation.insert ['b'] "D.cs".toList
    (∃ earlier answer rest, Registry.empty.answers [first, second, .lookup ['a']] =
        earlier ++ answer :: rest ∧ earlier.length = 2 ∧
          Expects [⟨['a'], "A.cs".toList⟩, ⟨['a'], "C.cs".toList⟩] (.lookup ['a']) answer) ∧
      (∃ earlier rest, Registry.empty.answers [first, missing, .records] =
        earlier ++ .registered none :: rest ∧
          Registry.empty.answers [first, .records] = earlier ++ rest ∧ earlier.length = 1) ∧
      (∃ earlier answer answer' rest rest',
        Registry.empty.answers [first, second, third, .records] =
          earlier ++ answer :: answer' :: rest ∧
        Registry.empty.answers [first, third, second, .records] =
          earlier ++ answer' :: answer :: rest' ∧
        earlier.length = 1 ∧ List.Forall₂ Answer.Alike rest rest') := by
  intro first missing second third
  obtain ⟨hexpects, hmissing, hcomm⟩ := last_write_wins
  have hwritten : second.written? = some ⟨['a'], "C.cs".toList⟩ := by decide +kernel
  have hbefore : written [first, second] = [⟨['a'], "A.cs".toList⟩, ⟨['a'], "C.cs".toList⟩] := by
    have hfirst : first.written? = some ⟨['a'], "A.cs".toList⟩ := rfl
    rw [written, List.filterMap_cons_some hfirst, List.filterMap_cons_some hwritten,
      List.filterMap_nil]
  have hread := hexpects [first, second] [] (.lookup ['a'])
  rw [hbefore] at hread
  exact ⟨hread, hmissing [first] [.records] _ _ .missing,
    hcomm [first] [.records] second third _ _ hwritten rfl (by decide)⟩

end SceneAudit.Registry
