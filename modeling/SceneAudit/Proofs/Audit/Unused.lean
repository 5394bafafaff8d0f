import SceneAudit.Proofs.Audit.Invariant
import SceneAudit.Proofs.Audit.Reports
import SceneAudit.Proofs.Sorting
import SceneAudit.Proofs.Text.Order

/-! # Unused scripts

Whatever the schedule, an audit reports the same unused scripts: those artifacts that no behavior
uses, in strictly ascending order.
-/

namespace SceneAudit

open Scene

namespace UnusedScript

variable {a b c : UnusedScript}

/-- Strictly ascending by path, and for one path by identifier. -/
def Before (a b : UnusedScript) : Prop :=
  Text.compare a.relativePath b.relativePath = .lt ∨
    a.relativePath = b.relativePath ∧ Text.compare a.identifier b.identifier = .lt

instance : DecidableRel Before := fun _ _ => inferInstanceAs (Decidable (_ ∨ _ ∧ _))

theorem le_iff : le a b = true ↔ Before a b ∨ a = b := by
  rcases a with ⟨path, identifier⟩
  rcases b with ⟨path', identifier'⟩
  simp only [le, Before, mk.injEq]
  cases hpath : Text.compare path path' with
  | lt => simp
  | gt =>
    have hne : path ≠ path' := by
      rintro rfl
      simp at hpath
    simp [hne]
  | eq =>
    obtain rfl := Std.LawfulEqCmp.eq_of_compare hpath
    rw [Text.le_iff]
    cases hid : Text.compare identifier identifier' with
    | lt => simp
    | gt =>
      have hne : identifier ≠ identifier' := by
        rintro rfl
        simp at hid
      simp [hne]
    | eq => simp [Std.LawfulEqCmp.eq_of_compare hid]

theorem Before.trans (hab : Before a b) (hbc : Before b c) : Before a c := by
  rcases a with ⟨path, identifier⟩
  rcases b with ⟨path', identifier'⟩
  rcases c with ⟨path'', identifier''⟩
  rcases hab with hab | ⟨rfl, hab⟩
  · rcases hbc with hbc | ⟨rfl, -⟩
    · exact Or.inl (Std.TransCmp.lt_trans hab hbc)
    · exact Or.inl hab
  · rcases hbc with hbc | ⟨rfl, hbc⟩
    · exact Or.inl hbc
    · exact Or.inr ⟨rfl, Std.TransCmp.lt_trans hab hbc⟩

theorem Before.irrefl (a : UnusedScript) : ¬ Before a a := by
  simp [Before]

theorem le_antisymm (hab : le a b = true) (hba : le b a = true) : a = b := by
  rcases le_iff.mp hab with hab | rfl
  · rcases le_iff.mp hba with hba | rfl
    · exact absurd (hab.trans hba) (Before.irrefl a)
    · rfl
  · rfl

instance : Std.Total (le · · = true) where
  total a b := by
    rw [le_iff, le_iff]
    unfold Before
    cases hpath : Text.compare a.relativePath b.relativePath with
    | lt => exact Or.inl (Or.inl (Or.inl rfl))
    | gt => exact Or.inr (Or.inl (Or.inl (Std.OrientedCmp.lt_of_gt hpath)))
    | eq =>
      have hsame := Std.LawfulEqCmp.eq_of_compare hpath
      cases hid : Text.compare a.identifier b.identifier with
      | lt => exact Or.inl (Or.inl (Or.inr ⟨hsame, rfl⟩))
      | gt => exact Or.inr (Or.inl (Or.inr ⟨hsame.symm, Std.OrientedCmp.lt_of_gt hid⟩))
      | eq =>
        have hsame' := Std.LawfulEqCmp.eq_of_compare hid
        rcases a with ⟨path, identifier⟩
        rcases b with ⟨path', identifier'⟩
        exact Or.inl (Or.inr (by rw [UnusedScript.mk.injEq]; exact ⟨hsame, hsame'⟩))

instance : IsTrans UnusedScript (le · · = true) where
  trans a b c hab hbc := by
    rcases le_iff.mp hab with hab | rfl
    · rcases le_iff.mp hbc with hbc | rfl
      · exact le_iff.mpr (Or.inl (hab.trans hbc))
      · exact le_iff.mpr (Or.inl hab)
    · exact hbc

end UnusedScript

section Rows

variable {registry registry' : Registry} {used used' : UsedSet} {root : Text}

def Artifact.row (root : Text) (a : Artifact) : UnusedScript :=
  ⟨Path.relativeTo root a.location, a.identifier⟩

theorem mem_unusedScripts {row : UnusedScript} :
    row ∈ Audit.unusedScripts root registry used ↔
      ∃ a ∈ registry.artifacts, used.contains a.identifier = false ∧ a.row root = row := by
  simp [Audit.unusedScripts, Artifact.row, and_assoc]

theorem nodup_unusedScripts (h : (registry.artifacts.map Artifact.identifier).Nodup) :
    (Audit.unusedScripts root registry used).Nodup := by
  refine (Sorting.sort_perm _).nodup_iff.mpr (List.Nodup.of_map UnusedScript.identifier ?_)
  rw [List.map_map]
  exact (List.filter_sublist.map Artifact.identifier).nodup h

theorem pairwise_unusedScripts (h : (registry.artifacts.map Artifact.identifier).Nodup) :
    (Audit.unusedScripts root registry used).Pairwise UnusedScript.Before := by
  have hle : (Audit.unusedScripts root registry used).Pairwise (UnusedScript.le · · = true) :=
    Sorting.pairwise_sort _
  refine (hle.and (nodup_unusedScripts h)).imp ?_
  rintro a b ⟨hab, hne⟩
  exact (UnusedScript.le_iff.mp hab).resolve_right hne

theorem unusedScripts_eq (hperm : registry.artifacts.Perm registry'.artifacts)
    (hused : ∀ a ∈ registry.artifacts, used.contains a.identifier = used'.contains a.identifier) :
    Audit.unusedScripts root registry used = Audit.unusedScripts root registry' used' := by
  refine Sorting.sort_eq_of_perm ?_ fun a _ b _ => UnusedScript.le_antisymm
  have hfilter : registry.artifacts.filter (fun a => !used.contains a.identifier) =
      registry.artifacts.filter fun a => !used'.contains a.identifier :=
    List.filter_congr fun a ha => by rw [hused a ha]
  rw [hfilter]
  exact (hperm.filter _).map _

end Rows

section Final

variable {p : Project} {s s' : Schedule}

theorem Invariant.artifacts_perm (h : Invariant p s) (hfinished : s.Finished) :
    s.registry.artifacts.Perm p.artifacts := by
  have hregistered := h.registered
  rwa [hfinished.registered, List.filterMap_nil, List.append_nil] at hregistered

theorem Invariant.contains_iff (hp : p.Regular) (h : Invariant p s) (hfinished : s.Finished)
    {a : Artifact} (ha : a ∈ p.artifacts) :
    s.state.used.contains a.identifier = true ↔ p.IsUsed a := by
  constructor
  · intro hmarked
    obtain ⟨path, hpath, hused⟩ := h.agrees.used a.identifier hmarked
    obtain rfl : path = a.location := hp.path_unique hpath ha
    exact hused
  · rintro ⟨b, ⟨scene, hscene, text, hread, hb⟩, hscript, huses⟩
    have hmem : scene ∈ (s.jobs.map fun job => (job.scene, job.dump)).map Prod.fst := by
      rw [h.jobs, List.map_fst_zip p.length_dumps.ge]
      exact hscene
    rw [List.map_map] at hmem
    obtain ⟨job, hjob, rfl⟩ := List.mem_map.mp hmem
    obtain ⟨outcome, hdone⟩ := hfinished.done job hjob
    have hsound := h.sound job hjob
    rw [Job.Sound, hdone] at hsound
    have hsettled := hsound text hread b hb
    rw [Settled, hscript] at hsettled
    exact hsettled a.location ha huses

theorem Invariant.mem_unused_iff (hp : p.Regular) (h : Invariant p s) (hfinished : s.Finished)
    {row : UnusedScript} :
    row ∈ s.unused p.root ↔ ∃ a ∈ p.artifacts, ¬ p.IsUsed a ∧ a.row p.root = row := by
  rw [Schedule.unused, mem_unusedScripts]
  refine exists_congr fun a => ?_
  rw [(h.artifacts_perm hfinished).mem_iff]
  refine and_congr_right fun ha => ?_
  rw [← h.contains_iff hp hfinished ha, Bool.not_eq_true]

/-- Any two schedules that come to an end find the same scripts to be unused. -/
theorem Invariant.unused_eq (hp : p.Regular) (h : Invariant p s) (hfinished : s.Finished)
    (h' : Invariant p s') (hfinished' : s'.Finished) : s.unused p.root = s'.unused p.root := by
  have hperm := (h.artifacts_perm hfinished).trans (h'.artifacts_perm hfinished').symm
  refine unusedScripts_eq hperm fun a ha => ?_
  have ha' := (h.artifacts_perm hfinished).mem_iff.mp ha
  rw [Bool.eq_iff_iff, h.contains_iff hp hfinished ha', h'.contains_iff hp hfinished' ha']

end Final

theorem Audit.run_eq_ok {tree after : FileTree} {config : Config} {root output : Text}
    {report : AuditReport} (h : run tree config root output = .ok (after, report)) :
    ∃ made, tree.makeDirectories output = .ok made ∧
      report = (Project.mk made config root output).report := by
  obtain ⟨-, -, made, hmade, haudit⟩ := run_eq_ok_iff.mp h
  exact ⟨made, hmade, congrArg Prod.snd haudit.symm⟩

/-- If sidecars carry distinct identifiers and no dump is written over a script or a scene, then
every schedule that comes to an end finds the unused scripts that the audit reports. They are in
strictly ascending order, and among them are exactly the artifacts that no behavior of a readable
scene names and uses by the artifact's own symbol table. -/
theorem unused_exact {tree made after : FileTree} {config : Config} {root output : Text}
    {report : AuditReport} (hrun : Audit.run tree config root output = .ok (after, report))
    (htree : tree.WellFormed) (hmade : tree.makeDirectories output = .ok made)
    (hidentifiers : (Project.mk made config root output).DistinctIdentifiers)
    (hdumps : (Project.mk made config root output).DumpsApart) :
    let p := Project.mk made config root output
    (∃ final, Schedule.Reaches config (.start p) final ∧ final.Finished) ∧
      (∀ final, Schedule.Reaches config (.start p) final → final.Finished →
        final.unused root = report.unused) ∧
      report.unused.Pairwise UnusedScript.Before ∧
      ∀ row, row ∈ report.unused ↔ ∃ a ∈ p.artifacts, ¬ p.IsUsed a ∧ a.row root = row := by
  intro p
  have hp : p.Regular := ⟨htree.makeDirectories hmade, hidentifiers, hdumps⟩
  obtain ⟨made', hmade', rfl⟩ := Audit.run_eq_ok hrun
  obtain rfl : made = made' := Except.ok.inj (hmade.symm.trans hmade')
  obtain ⟨last, hlast, hfinished, hreport⟩ := Schedule.exists_reaches_finished p
  have hinvariant := Invariant.of_reaches hp hlast
  rw [show (Project.mk made config root output).report.unused = last.unused root from hreport.symm]
  refine ⟨⟨last, hlast, hfinished⟩, ?_, ?_, ?_⟩
  · intro final hfinal hfinished'
    exact (Invariant.of_reaches hp hfinal).unused_eq hp hfinished' hinvariant hfinished
  · refine pairwise_unusedScripts ?_
    exact ((hinvariant.artifacts_perm hfinished).map _).nodup_iff.mpr hp.nodup_artifacts
  · intro row
    exact hinvariant.mem_unused_iff hp hfinished

/-- A scene attaches two scripts, but by its members only one of them is used. -/
theorem unused_exact_of_two_scripts :
    let file := fun text : String => Entry.file (Utf8.encode text.toList)
    let tree : FileTree := ⟨[([['p']], .directory), ([['p'], ['S']], .directory),
      ([['p'], "A.cs".toList], file "class A \x7b int hp; \x7d"),
      ([['p'], "A.cs.meta".toList], file "guid: a"),
      ([['p'], "B.cs".toList], file "class B \x7b int xp; \x7d"),
      ([['p'], "B.cs.meta".toList], file "guid: b"),
      ([['p'], ['S'], "s.unity".toList], file ("--- &1\nMonoBehaviour:\n  m_Script: {guid: a}\n" ++
        "  hp: 1\n--- &2\nMonoBehaviour:\n  m_Script: {guid: b}\n  hp: 1\n"))], []⟩
    let config := { Config.default with sceneDirs := [['S']] }
    let made := tree.put [['o']] .directory
    let p := Project.mk made config "/p".toList "/o".toList
    tree.WellFormed ∧ tree.makeDirectories p.output = .ok made ∧ p.DistinctIdentifiers ∧
      p.DumpsApart ∧ ∃ after report, Audit.run tree config p.root p.output = .ok (after, report) ∧
        report.unused = [⟨"B.cs".toList, ['b']⟩] ∧
        (∃ final, Schedule.Reaches config (.start p) final ∧ final.Finished) ∧
        (∀ final, Schedule.Reaches config (.start p) final → final.Finished →
          final.unused p.root = report.unused) ∧
        report.unused.Pairwise UnusedScript.Before ∧
        ∀ row, row ∈ report.unused ↔ ∃ a ∈ p.artifacts, ¬ p.IsUsed a ∧ a.row p.root = row := by
  simp -zeta only [Utf8.encode_toList]
  repeat rw [String.toList_ofList]
  intro file tree config made p
  obtain ⟨htree, hidentifiers, hdumps⟩ :
      tree.WellFormed ∧ p.DistinctIdentifiers ∧ p.DumpsApart := by decide +kernel
  have hmade : tree.makeDirectories p.output = .ok made := rfl
  have hunused : (Audit.run tree config p.root p.output).toOption.map (fun r => r.2.unused) =
      some [⟨['B', '.', 'c', 's'], ['b']⟩] := by decide +kernel
  obtain ⟨after, report, hrun, hrow⟩ := Audit.exists_run_of_map hunused
  exact ⟨htree, hmade, hidentifiers, hdumps, after, report, hrun, hrow,
    unused_exact hrun htree hmade hidentifiers hdumps⟩

end SceneAudit
