import SceneAudit.Proofs.Audit.Isolation

/-! # One scene in two runs

What a report holds of a scene, and the scene's dump, are the same in all runs that find the same
text of the scene and the same files around the output directory.
-/

namespace SceneAudit

open FileTree

section Entries

variable {p p' : Project} {s : Schedule} {e : SourceFile × Option Text}

theorem Project.sceneOf_alone (p : Project) (scene : SourceFile) (dump : Option Text) :
    Audit.sceneOf (p.alone scene dump).2 = scene.path := by
  cases hread : p.tree.readText scene.path with
  | error fault => rw [alone_of_unreadable dump hread]; rfl
  | ok text =>
    rw [alone_of_text dump hread rfl]
    split <;> rfl

theorem Project.nodup_scenes (p : Project) : (p.scenes.map SourceFile.path).Nodup := by
  have hascending := Finder.pairwise_findIn p.tree p.config p.root
    (p.config.sceneDirs.map (Path.join p.root)) .scene
  refine List.pairwise_map.mpr (hascending.imp ?_)
  rintro a b hlt heq
  have hsame : Path.compare a.path b.path = .eq :=
    Path.compare_eq_iff.mpr (heq ▸ beq_self_eq_true _)
  exact nomatch hlt.symm.trans hsame

theorem Project.map_path_zip (p : Project) :
    (p.scenes.zip p.dumps).map (fun e => e.1.path) = p.scenes.map SourceFile.path := by
  have hfst : (p.scenes.zip p.dumps).map Prod.fst = p.scenes := List.map_fst_zip p.length_dumps.ge
  nth_rewrite 2 [← hfst]
  rw [List.map_map]
  rfl

theorem Undisturbed.mem_outcomes_iff (h : Undisturbed p s) (hfinished : s.Finished)
    (he : e ∈ p.scenes.zip p.dumps) {outcome : Except SceneFailure SceneSummary}
    (hscene : Audit.sceneOf outcome = e.1.path) :
    outcome ∈ s.outcomes ↔ (p.alone e.1 e.2).2 = outcome := by
  rw [h.outcomes_eq hfinished, List.mem_map]
  constructor
  · rintro ⟨e', he', rfl⟩
    rw [Project.sceneOf_alone] at hscene
    have hnodup : ((p.scenes.zip p.dumps).map fun e => e.1.path).Nodup :=
      p.map_path_zip ▸ p.nodup_scenes
    rw [List.inj_on_of_nodup_map hnodup he' he hscene]
  · rintro rfl
    exact ⟨e, he, rfl⟩

theorem Undisturbed.lists (h : Undisturbed p s) (hfinished : s.Finished) :
    (s.report p).Lists (p.scenes.map SourceFile.path) := by
  have hpaths : s.outcomes.map Audit.sceneOf = p.scenes.map SourceFile.path := by
    rw [h.outcomes_eq hfinished, List.map_map, ← p.map_path_zip]
    exact List.map_congr_left fun e _ => p.sceneOf_alone e.1 e.2
  refine ⟨?_, ?_, ?_, ?_⟩
  · exact hpaths ▸ Audit.summaries_sublist s.outcomes
  · exact hpaths ▸ Audit.failures_sublist s.outcomes
  · exact hpaths ▸ Audit.summaries_append_failures_perm s.outcomes
  · exact List.pairwise_map.mpr (Finder.pairwise_findIn ..)

theorem Undisturbed.mem_scenes_iff (h : Undisturbed p s) (hfinished : s.Finished)
    (he : e ∈ p.scenes.zip p.dumps) {summary : SceneSummary} (hscene : summary.scene = e.1.path) :
    summary ∈ (s.report p).scenes ↔ (p.alone e.1 e.2).2 = .ok summary :=
  Audit.mem_filterMap_summary?.trans (h.mem_outcomes_iff hfinished he hscene)

theorem Undisturbed.mem_failures_iff (h : Undisturbed p s) (hfinished : s.Finished)
    (he : e ∈ p.scenes.zip p.dumps) {failure : SceneFailure} (hscene : failure.scene = e.1.path) :
    failure ∈ (s.report p).failures ↔ (p.alone e.1 e.2).2 = .error failure :=
  Audit.mem_filterMap_failure?.trans (h.mem_outcomes_iff hfinished he hscene)

theorem Project.trail_congr (h : p.tree.current = p'.tree.current) (dump : Option Text) :
    p.Trail dump = p'.Trail dump := by
  funext l
  simp only [Trail, FileTree.trail, origin, h]

theorem Project.around_of_trail (hsuffix : ¬ DumpPlan.Climbs p.config.report.dumpSuffix)
    (he : e ∈ p.scenes.zip p.dumps) {l : Location} (hl : p.Trail e.2 l) :
    p.tree.Around p.output l := by
  obtain ⟨dump, hdump, hl⟩ := hl
  obtain ⟨r, hr, rfl⟩ := DumpPlan.exists_isName_of_mem_ofTexts (hdump ▸ (List.of_mem_zip he).2)
  exact mem_trail_dump hr hsuffix hl

end Entries

/-- Scenes do not touch each other, if no dump is written over a scene and the suffix of dumps does
not climb. Each found scene has one entry in the report, in the order of paths. All schedules come
to the same entries and dumps. Of a scene that has the same path, the same text and the same dump in
two projects, two runs over the same surroundings of the output directory report the same and leave
the same dump. -/
theorem scenes_isolated {tree tree' made made' after after' : FileTree} {config : Config}
    {root root' output : Text} {report report' : AuditReport}
    (hrun : Audit.run tree config root output = .ok (after, report))
    (hrun' : Audit.run tree' config root' output = .ok (after', report'))
    (hmade : tree.makeDirectories output = .ok made)
    (hmade' : tree'.makeDirectories output = .ok made')
    (htree : tree.WellFormed) (htree' : tree'.WellFormed)
    (hscenes : (Project.mk made config root output).ScenesApart)
    (hscenes' : (Project.mk made' config root' output).ScenesApart)
    (hsuffix : ¬ DumpPlan.Climbs config.report.dumpSuffix)
    (haround : AgreeOn (tree.Around output) tree tree') :
    let p := Project.mk made config root output
    let p' := Project.mk made' config root' output
    report.Lists (p.scenes.map SourceFile.path) ∧
      (∀ final, Schedule.EndOf p final → (final.report p).scenes = report.scenes ∧
        (final.report p).failures = report.failures ∧
        ∀ dump, some dump ∈ p.dumps → final.state.tree.entryOf dump = after.entryOf dump) ∧
      ∀ e ∈ p.scenes.zip p.dumps, e ∈ p'.scenes.zip p'.dumps →
        made.readText e.1.path = made'.readText e.1.path →
        (∀ summary : SceneSummary, summary.scene = e.1.path →
          (summary ∈ report.scenes ↔ summary ∈ report'.scenes)) ∧
        (∀ failure : SceneFailure, failure.scene = e.1.path →
          (failure ∈ report.failures ↔ failure ∈ report'.failures)) ∧
        ∀ dump, e.2 = some dump → after.entryOf dump = after'.entryOf dump := by
  intro p p'
  have hp : p.Separate := ⟨htree.makeDirectories hmade, hscenes, hsuffix⟩
  have hp' : p'.Separate := ⟨htree'.makeDirectories hmade', hscenes', hsuffix⟩
  obtain ⟨last, hlast, rfl, rfl⟩ := Audit.exists_endOf_of_run hrun hmade
  obtain ⟨last', hlast', rfl, rfl⟩ := Audit.exists_endOf_of_run hrun' hmade'
  have h := Undisturbed.of_reaches hp hlast.reaches
  have h' := Undisturbed.of_reaches hp' hlast'.reaches
  refine ⟨h.lists hlast.finished, fun final hfinal => ?_, fun e he he' hread => ?_⟩
  · have hother := Undisturbed.of_reaches hp hfinal.reaches
    have houtcomes : final.outcomes = last.outcomes :=
      (hother.outcomes_eq hfinal.finished).trans (h.outcomes_eq hlast.finished).symm
    refine ⟨congrArg (List.filterMap Audit.summary?) houtcomes,
      congrArg (List.filterMap Audit.failure?) houtcomes, fun dump hdump => ?_⟩
    rw [← List.map_snd_zip p.length_dumps.le] at hdump
    obtain ⟨e, he, hdump⟩ := List.mem_map.mp hdump
    exact Project.entryOf_dump hdump hother.frame.current
      ((hother.agreeOn hfinal.finished he).trans (h.agreeOn hlast.finished he).symm)
  · have hagree : AgreeOn (p.Trail e.2) made made' :=
      (haround.makeDirectories_around hmade hmade').mono fun l => p.around_of_trail hsuffix he
    obtain ⟨houtcome, hfiles⟩ : (p.alone e.1 e.2).2 = (p'.alone e.1 e.2).2 ∧
        AgreeOn (p.Trail e.2) (p.alone e.1 e.2).1 (p'.alone e.1 e.2).1 :=
      Project.alone_congr rfl hread hagree
    refine ⟨fun summary hscene => ?_, fun failure hscene => ?_, fun dump hdump => ?_⟩
    · rw [h.mem_scenes_iff hlast.finished he hscene, h'.mem_scenes_iff hlast'.finished he' hscene,
        houtcome]
    · rw [h.mem_failures_iff hlast.finished he hscene,
        h'.mem_failures_iff hlast'.finished he' hscene, houtcome]
    · have hleft := h.agreeOn hlast.finished he
      have hright := h'.agreeOn hlast'.finished he'
      have htrail : p.Trail e.2 = p'.Trail e.2 := Project.trail_congr hagree.current e.2
      rw [← htrail] at hright
      exact Project.entryOf_dump hdump h.frame.current (hleft.trans (hfiles.trans hright.symm))

/-- Scene `b` comes to the same beside a readable scene `a` as beside one that is no text. -/
theorem scenes_isolated_of_unreadable_neighbour :
    let scene := Utf8.encode "--- &1\nGameObject:\n  m_Name: x\n".toList
    let base : FileTree := ⟨[([['p']], .directory), ([['p'], ['S']], .directory),
      ([['p'], ['S'], "b.unity".toList], .file scene)], []⟩
    let tree := base.put [['p'], ['S'], "a.unity".toList] (.file scene)
    let tree' := base.put [['p'], ['S'], "a.unity".toList] (.file [255])
    let config := { Config.default with sceneDirs := [['S']] }
    let made := tree.put [['o']] .directory
    let made' := tree'.put [['o']] .directory
    let p := Project.mk made config "/p".toList "/o".toList
    let p' := Project.mk made' config "/p".toList "/o".toList
    let b := (SourceFile.mk "/p/S/b.unity".toList .scene, some "/o/b.unity.dump".toList)
    tree.WellFormed ∧ tree'.WellFormed ∧ tree.makeDirectories p.output = .ok made ∧
      tree'.makeDirectories p.output = .ok made' ∧ p.ScenesApart ∧ p'.ScenesApart ∧
      ¬ DumpPlan.Climbs config.report.dumpSuffix ∧ AgreeOn (tree.Around p.output) tree tree' ∧
      b ∈ p.scenes.zip p.dumps ∧ b ∈ p'.scenes.zip p'.dumps ∧
      made.readText b.1.path = made'.readText b.1.path ∧
      ∃ after report after' report', Audit.run tree config p.root p.output = .ok (after, report) ∧
        Audit.run tree' config p.root p.output = .ok (after', report') ∧
        report.failures.length = 0 ∧ report'.failures.length = 1 ∧
        report'.Lists (p'.scenes.map SourceFile.path) ∧
        (∀ summary : SceneSummary, summary.scene = b.1.path →
          (summary ∈ report.scenes ↔ summary ∈ report'.scenes)) ∧
        after.entryOf "/o/b.unity.dump".toList = after'.entryOf "/o/b.unity.dump".toList := by
  simp -zeta only [Utf8.encode_toList]
  repeat rw [String.toList_ofList]
  intro scene base tree tree' config made made' p p' b
  obtain ⟨htree, htree'⟩ : tree.WellFormed ∧ tree'.WellFormed := by decide +kernel
  have hmade : tree.makeDirectories p.output = .ok made := rfl
  have hmade' : tree'.makeDirectories p.output = .ok made' := rfl
  obtain ⟨hscenes, hscenes'⟩ : p.ScenesApart ∧ p'.ScenesApart := by decide +kernel
  have hsuffix : ¬ DumpPlan.Climbs config.report.dumpSuffix := by decide
  have haround : AgreeOn (tree.Around p.output) tree tree' :=
    .of_puts (by simp) (by decide +kernel) _ _
  obtain ⟨hb, hb', hread⟩ : b ∈ p.scenes.zip p.dumps ∧ b ∈ p'.scenes.zip p'.dumps ∧
      made.readText b.1.path = made'.readText b.1.path := by decide +kernel
  let failed := fun tree : FileTree =>
    (Audit.run tree config p.root p.output).toOption.map fun r => r.2.failures.length
  obtain ⟨hfailures, hfailures'⟩ : failed tree = some 0 ∧ failed tree' = some 1 := by
    decide +kernel
  obtain ⟨after, report, hrun, hnone⟩ := Audit.exists_run_of_map hfailures
  obtain ⟨after', report', hrun', hone⟩ := Audit.exists_run_of_map hfailures'
  obtain ⟨-, -, hsame⟩ := scenes_isolated hrun hrun' hmade hmade' htree htree' hscenes hscenes'
    hsuffix haround
  obtain ⟨hlists, -, -⟩ := scenes_isolated hrun' hrun' hmade' hmade' htree' htree' hscenes' hscenes'
    hsuffix (AgreeOn.refl _ _)
  obtain ⟨hsummary, -, hdump⟩ := hsame b hb hb' hread
  exact ⟨htree, htree', hmade, hmade', hscenes, hscenes', hsuffix, haround, hb, hb', hread, after,
    report, after', report', hrun, hrun', hnone, hone, hlists, hsummary, hdump _ rfl⟩

/-- With a suffix that climbs, the dump of scene `a` makes the file that the path of the dump of
scene `b` is to lead through. So the failure of `b` tells whether `a` could be read. -/
theorem not_scenes_isolated_of_climbing_suffix :
    let scene := Utf8.encode "--- &1\nGameObject:\n  m_Name: x\n".toList
    let base : FileTree := ⟨[([['p']], .directory), ([['p'], ['S']], .directory),
      ([['p'], ['S'], "b.unity".toList], .file scene), ([['o']], .directory),
      ([['o'], "a.unity.d".toList], .directory)], []⟩
    let tree := base.put [['p'], ['S'], "a.unity".toList] (.file scene)
    let tree' := base.put [['p'], ['S'], "a.unity".toList] (.file [255])
    let report := { Config.default.report with dumpSuffix := "d/../b.unity.d".toList }
    let config := { Config.default with sceneDirs := [['S']], report := report }
    let p := Project.mk tree config "/p".toList "/o".toList
    let p' := Project.mk tree' config "/p".toList "/o".toList
    let b := (SourceFile.mk "/p/S/b.unity".toList .scene,
      some "/o/b.unity.d/../b.unity.d".toList)
    tree.WellFormed ∧ tree'.WellFormed ∧ tree.makeDirectories p.output = .ok tree ∧
      tree'.makeDirectories p.output = .ok tree' ∧ p.ScenesApart ∧ p'.ScenesApart ∧
      AgreeOn (tree.Around p.output) tree tree' ∧ p.scenes = p'.scenes ∧
      b ∈ p.scenes.zip p.dumps ∧ b ∈ p'.scenes.zip p'.dumps ∧
      tree.readText b.1.path = tree'.readText b.1.path ∧
      ∃ after report after' report', Audit.run tree config p.root p.output = .ok (after, report) ∧
        Audit.run tree' config p.root p.output = .ok (after', report') ∧
        ¬ ∀ failure : SceneFailure, failure.scene = b.1.path →
          (failure ∈ report.failures ↔ failure ∈ report'.failures) := by
  simp -zeta only [Utf8.encode_toList]
  repeat rw [String.toList_ofList]
  intro scene base tree tree' reportConfig config p p' b
  have haround : AgreeOn (tree.Around p.output) tree tree' :=
    .of_puts (by simp) (by decide +kernel) _ _
  let failure := Audit.failure b.1 (.dumpNotWritten (b.2.getD []) .notFound)
  let fails := fun tree : FileTree => (Audit.run tree config p.root p.output).toOption.map
    fun r => decide (failure ∈ r.2.failures)
  obtain ⟨hfailure, hfailure'⟩ : fails tree = some false ∧ fails tree' = some true := by
    decide +kernel
  obtain ⟨after, report, hrun, hout⟩ := Audit.exists_run_of_map hfailure
  obtain ⟨after', report', hrun', hin⟩ := Audit.exists_run_of_map hfailure'
  refine ⟨by decide +kernel, by decide +kernel, rfl, rfl, by decide +kernel, by decide +kernel,
    haround, by decide +kernel, by decide +kernel, by decide +kernel, by decide +kernel, after,
    report, after', report', hrun, hrun', fun hsame => ?_⟩
  exact of_decide_eq_false hout ((hsame failure rfl).mpr (of_decide_eq_true hin))

end SceneAudit
