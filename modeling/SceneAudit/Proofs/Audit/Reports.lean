import SceneAudit.Proofs.Audit.Sequential

/-! # Reports of schedules

What an audit reports is read off its last state, whatever schedule has led to it. A run reports
what the sequential schedule does, so what holds of the reports of all schedules holds of every run.
-/

namespace SceneAudit

def Job.outcome? (job : Job) : Option (Except SceneFailure SceneSummary) :=
  match job.phase with
  | .done outcome => some outcome
  | _ => none

namespace Schedule

/-- The outcomes of the scenes that are done, in the order of the scenes. -/
def outcomes (s : Schedule) : List (Except SceneFailure SceneSummary) :=
  s.jobs.filterMap Job.outcome?

/-- The report on a project as the audit stands. -/
def report (s : Schedule) (p : Project) : AuditReport where
  unused := s.unused p.root
  scriptsFound := p.scripts.length
  scriptsRegistered := s.registry.size
  scenes := s.outcomes.filterMap Audit.summary?
  failures := s.outcomes.filterMap Audit.failure?

/-- An audit of a project may come to an end in this state. -/
structure EndOf (p : Project) (s : Schedule) : Prop where
  reaches : Reaches p.config (start p) s
  finished : s.Finished

theorem endOf_sequential (p : Project) : EndOf p (sequential p) :=
  ⟨reaches_sequential p, finished_sequential p⟩

end Schedule

namespace Audit

variable {tree after : FileTree} {config : Config} {root output : Text}

theorem length_processAll (config : Config) (registry : Registry) (state : RunState)
    (scenes : List (SourceFile × Option Text)) :
    (processAll config registry state scenes).2.length = scenes.length := by
  induction scenes generalizing state with
  | nil => rfl
  | cons e scenes ih => exact congrArg Nat.succ (ih _)

theorem filterMap_outcome?_done (scenes : List (SourceFile × Option Text))
    (outcomes : List (Except SceneFailure SceneSummary)) (h : outcomes.length ≤ scenes.length) :
    ((scenes.zip outcomes).map fun e => Job.mk e.1.1 e.1.2 (.done e.2)).filterMap Job.outcome? =
      outcomes := by
  have houtcome : (Job.outcome? ∘ fun e : (SourceFile × Option Text) × _ =>
      Job.mk e.1.1 e.1.2 (.done e.2)) = some ∘ Prod.snd := rfl
  rw [List.filterMap_map, houtcome, List.filterMap_eq_map, List.map_snd_zip h]

theorem audit_eq (p : Project) : audit p.tree p.config p.root p.output =
    ((Schedule.sequential p).state.tree, (Schedule.sequential p).report p) := by
  have houtcomes : (Schedule.sequential p).outcomes =
      (processAll p.config (registerAll p.tree p.config p.scripts) p.state
        (p.scenes.zip p.dumps)).2 :=
    filterMap_outcome?_done _ _ (length_processAll ..).le
  unfold Schedule.report
  rw [houtcomes]
  rfl

theorem run_eq_ok_iff {r : FileTree × AuditReport} :
    run tree config root output = .ok r ↔
      tree.pathExists root = true ∧ tree.isDirectory root = true ∧
        ∃ made, tree.makeDirectories output = .ok made ∧ audit made config root output = r := by
  unfold run
  cases tree.pathExists root with
  | false => simp
  | true =>
    cases tree.isDirectory root with
    | false => simp
    | true => cases tree.makeDirectories output <;> simp

theorem exists_run {made : FileTree} (config : Config) (hroot : tree.isDirectory root = true)
    (hmade : tree.makeDirectories output = .ok made) :
    ∃ after report, run tree config root output = .ok (after, report) :=
  ⟨_, _, run_eq_ok_iff.mpr ⟨FileTree.pathExists_of_isDirectory hroot, hroot, made, hmade, rfl⟩⟩

theorem exists_run_of_map {β : Type} {f : FileTree × AuditReport → β} {b : β}
    (h : (run tree config root output).toOption.map f = some b) :
    ∃ after report, run tree config root output = .ok (after, report) ∧ f (after, report) = b := by
  cases hrun : run tree config root output with
  | error e =>
    rw [hrun] at h
    exact nomatch h
  | ok r =>
    rw [hrun] at h
    exact ⟨r.1, r.2, rfl, Option.some.inj h⟩

/-- What a run leaves and reports is what some schedule comes to. -/
theorem exists_endOf_of_run {made : FileTree} {report : AuditReport}
    (h : run tree config root output = .ok (after, report))
    (hmade : tree.makeDirectories output = .ok made) :
    ∃ final, Schedule.EndOf ⟨made, config, root, output⟩ final ∧ final.state.tree = after ∧
      final.report ⟨made, config, root, output⟩ = report := by
  obtain ⟨-, -, made', hmade', haudit⟩ := run_eq_ok_iff.mp h
  obtain rfl : made = made' := Except.ok.inj (hmade.symm.trans hmade')
  have heq := (audit_eq ⟨made, config, root, output⟩).symm.trans haudit
  obtain ⟨rfl, rfl⟩ := Prod.mk.inj heq
  exact ⟨_, Schedule.endOf_sequential _, rfl, rfl⟩

def sceneOf : Except SceneFailure SceneSummary → Text
  | .ok s => s.scene
  | .error f => f.scene

theorem mem_filterMap_summary? {outcomes : List (Except SceneFailure SceneSummary)}
    {s : SceneSummary} : s ∈ outcomes.filterMap summary? ↔ .ok s ∈ outcomes := by
  rw [List.mem_filterMap]
  constructor
  · rintro ⟨_ | _, hmem, heq⟩
    · simp [summary?] at heq
    · obtain rfl := Option.some.inj heq
      exact hmem
  · exact fun hmem => ⟨_, hmem, rfl⟩

theorem mem_filterMap_failure? {outcomes : List (Except SceneFailure SceneSummary)}
    {f : SceneFailure} : f ∈ outcomes.filterMap failure? ↔ .error f ∈ outcomes := by
  rw [List.mem_filterMap]
  constructor
  · rintro ⟨_ | _, hmem, heq⟩
    · obtain rfl := Option.some.inj heq
      exact hmem
    · simp [failure?] at heq
  · exact fun hmem => ⟨_, hmem, rfl⟩

end Audit

theorem Schedule.exists_done {s : Schedule} {p : Project} {summary : SceneSummary}
    (h : summary ∈ (s.report p).scenes) :
    ∃ scene dump, Job.mk scene dump (.done (.ok summary)) ∈ s.jobs := by
  have houtcome : .ok summary ∈ s.outcomes := Audit.mem_filterMap_summary?.mp h
  obtain ⟨⟨scene, dump, phase⟩, hjob, hdone⟩ := List.mem_filterMap.mp houtcome
  cases phase with
  | waiting | resolving => cases hdone
  | done outcome =>
    obtain rfl := Option.some.inj hdone
    exact ⟨scene, dump, hjob⟩

/-- Scenes and failures of a report together list some paths, each of them once and in order. -/
structure AuditReport.Lists (report : AuditReport) (paths : List Text) : Prop where
  scenes : (report.scenes.map SceneSummary.scene).Sublist paths
  failures : (report.failures.map SceneFailure.scene).Sublist paths
  all : (report.scenes.map SceneSummary.scene ++ report.failures.map SceneFailure.scene).Perm paths
  ascending : paths.Pairwise fun a b => Path.compare a b = .lt

namespace Audit

theorem summaries_sublist (outcomes : List (Except SceneFailure SceneSummary)) :
    ((outcomes.filterMap summary?).map SceneSummary.scene).Sublist (outcomes.map sceneOf) := by
  induction outcomes with
  | nil => exact List.Sublist.slnil
  | cons outcome outcomes ih =>
    cases outcome with
    | ok s => exact ih.cons_cons s.scene
    | error f => exact ih.cons f.scene

theorem failures_sublist (outcomes : List (Except SceneFailure SceneSummary)) :
    ((outcomes.filterMap failure?).map SceneFailure.scene).Sublist (outcomes.map sceneOf) := by
  induction outcomes with
  | nil => exact List.Sublist.slnil
  | cons outcome outcomes ih =>
    cases outcome with
    | ok s => exact ih.cons s.scene
    | error f => exact ih.cons_cons f.scene

theorem summaries_append_failures_perm (outcomes : List (Except SceneFailure SceneSummary)) :
    ((outcomes.filterMap summary?).map SceneSummary.scene ++
      (outcomes.filterMap failure?).map SceneFailure.scene).Perm (outcomes.map sceneOf) := by
  induction outcomes with
  | nil => exact List.Perm.nil
  | cons outcome outcomes ih =>
    cases outcome with
    | ok s => exact ih.cons s.scene
    | error f => exact List.perm_middle.trans (ih.cons f.scene)

theorem length_summaries_add_failures (outcomes : List (Except SceneFailure SceneSummary)) :
    (outcomes.filterMap summary?).length + (outcomes.filterMap failure?).length =
      outcomes.length := by
  have hlength := (summaries_append_failures_perm outcomes).length_eq
  rwa [List.length_append, List.length_map, List.length_map, List.length_map] at hlength

end Audit

end SceneAudit
