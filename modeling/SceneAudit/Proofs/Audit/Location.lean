import SceneAudit.Proofs.Audit.RelocatedRuns
import SceneAudit.Proofs.Audit.Reports

/-! # A project's location does not matter

Whatever the schedule, each step of an audit of a project at one place is a step of an audit of it
at another place, so what the one may report the other may report too, but for the beginnings of the
paths.
-/

namespace SceneAudit

open Scene FileTree Relation

section Progress

variable {root output : Placement}

/-- How far the judging of a behavior has come at two places. -/
inductive Progress.Moved (root : Placement) : Progress → Progress → Prop
  | untouched : Moved root .untouched .untouched
  | unmarked : Moved root .unmarked .unmarked
  | registered {a b : Text} (h : root.Moved a b) : Moved root (.registered a) (.registered b)
  | present {a b : Text} (h : root.Moved a b) : Moved root (.present a) (.present b)
  | unread {a b : Text} (h : root.Moved a b) : Moved root (.unread a) (.unread b)
  | read {a b : Text} (h : root.Moved a b) (table : SymbolTable) :
      Moved root (.read a table) (.read b table)
  | used : Moved root .used .used
  | finished : Moved root .finished .finished

namespace Progress.Moved

theorem finished_iff {progress progress' : Progress} (h : progress.Moved root progress') :
    progress = .finished ↔ progress' = .finished := by
  cases h <;> simp

theorem ofVerdict (verdict : Bool) :
    Progress.Moved root (.ofVerdict verdict) (.ofVerdict verdict) := by
  cases verdict with
  | true => exact .used
  | false => exact .finished

theorem advance {state state' : RunState} {registry registry' : Registry}
    {progress progress' : Progress} (h : progress.Moved root progress')
    (hstate : state.Moved root output state') (hregistry : registry.Moved root registry')
    (hroot : root.path ≠ []) (hroot' : root.path' ≠ []) (b : Behavior) :
    (progress.advance registry state b).1.Moved root output
        (progress'.advance registry' state' b).1 ∧
      (progress.advance registry state b).2.Moved root
        (progress'.advance registry' state' b).2 := by
  have hm : root ∈ [root, output] := List.mem_cons_self
  cases h with
  | untouched =>
    refine ⟨hstate, ?_⟩
    unfold Progress.advance
    dsimp only
    rw [hstate.used]
    split
    · exact .finished
    · exact .unmarked
  | unmarked =>
    have hlookup := hregistry.lookup b.script
    unfold Progress.advance
    generalize registry.lookup _ = found, registry'.lookup _ = found' at hlookup
    cases hlookup with
    | none => exact ⟨hstate, .finished⟩
    | some hab => exact ⟨hstate, .registered hab⟩
  | registered hab =>
    refine ⟨hstate, ?_⟩
    unfold Progress.advance
    dsimp only
    rw [hstate.tree.isFile hm hab]
    split
    · exact .present hab
    · exact .finished
  | present hab =>
    unfold Progress.advance
    dsimp only
    rw [hstate.resolver.cached? hroot hroot' hab, hstate.resolver.policy]
    split
    · exact ⟨hstate, ofVerdict _⟩
    · exact ⟨hstate, .unread hab⟩
  | unread hab =>
    refine ⟨hstate, ?_⟩
    unfold Progress.advance
    dsimp only
    rw [hstate.resolver.readTable hab hstate.tree hm]
    exact .read hab _
  | read hab table =>
    obtain ⟨hresolver, htable⟩ := hstate.resolver.store hroot hroot' hab table
    refine ⟨⟨hstate.tree, hstate.used, hresolver⟩, ?_⟩
    unfold Progress.advance
    dsimp only
    rw [htable, hresolver.policy]
    exact ofVerdict _
  | used =>
    refine ⟨⟨hstate.tree, ?_, hstate.resolver⟩, .finished⟩
    unfold Progress.advance
    dsimp only
    rw [hstate.used]
  | finished => exact ⟨hstate, .finished⟩

end Progress.Moved

end Progress

section Jobs

variable {root output : Placement}

theorem Lookup.exists_of_related_append {α β : Type} {R : α → β → Prop} {before after : List α}
    {a : α} {m : List β} (h : List.Forall₂ R (before ++ a :: after) m) :
    ∃ before' b after', m = before' ++ b :: after' ∧ List.Forall₂ R before before' ∧ R a b ∧
      List.Forall₂ R after after' := by
  induction before generalizing m with
  | nil =>
    cases h with
    | cons hab hafter => exact ⟨[], _, _, rfl, .nil, hab, hafter⟩
  | cons c before ih =>
    cases h with
    | cons hcd hrest =>
      obtain ⟨before', b, after', rfl, hbefore, hab, hafter⟩ := ih hrest
      exact ⟨_ :: before', b, after', rfl, .cons hcd hbefore, hab, hafter⟩

/-- A behavior that is being judged at two places. -/
structure Task.Moved (root : Placement) (t t' : Task) : Prop where
  behavior : t.behavior = t'.behavior
  progress : t.progress.Moved root t'.progress

/-- How far the work on a scene has come at two places. -/
inductive Phase.Moved (root output : Placement) : Phase → Phase → Prop
  | waiting : Moved root output .waiting .waiting
  | resolving (parsed : Scene) {tasks tasks' : List Task}
      (h : List.Forall₂ (Task.Moved root) tasks tasks') :
      Moved root output (.resolving parsed tasks) (.resolving parsed tasks')
  | done {outcome outcome' : Except SceneFailure SceneSummary}
      (h : Audit.MovedOutcome root output outcome outcome') :
      Moved root output (.done outcome) (.done outcome')

/-- The work on one scene at two places. -/
structure Job.Moved (root output : Placement) (job job' : Job) : Prop where
  scene : job.scene.Moved root job'.scene
  dump : Option.Rel output.Moved job.dump job'.dump
  phase : job.phase.Moved root output job'.phase

theorem Task.Moved.finished {tasks tasks' : List Task}
    (h : List.Forall₂ (Task.Moved root) tasks tasks')
    (hfinished : ∀ t ∈ tasks, t.progress = .finished) : ∀ t ∈ tasks', t.progress = .finished := by
  induction h with
  | nil => exact nofun
  | cons ht _ ih =>
    obtain ⟨hhead, hrest⟩ := List.forall_mem_cons.mp hfinished
    exact List.forall_mem_cons.mpr ⟨ht.progress.finished_iff.mp hhead, ih hrest⟩

theorem Job.Moved.step {config : Config} {registry registry' : Registry}
    {state state' next : RunState} {job job' after : Job} (h : job.Moved root output job')
    (hstate : state.Moved root output state') (hregistry : registry.Moved root registry')
    (hroot : root.path ≠ []) (hroot' : root.path' ≠ [])
    (hstep : Job.Step config registry (state, job) (next, after)) :
    ∃ next' after', Job.Step config registry' (state', job') (next', after') ∧
      next.Moved root output next' ∧ after.Moved root output after' := by
  obtain ⟨hscene, hdump, hphase⟩ := h
  rcases job' with ⟨scene', dump', phase'⟩
  have hm : root ∈ [root, output] := List.mem_cons_self
  cases hstep with
  | @unreadable _ scene dump fault hread =>
    cases hphase
    rw [hstate.tree.readText hm hscene.path] at hread
    refine ⟨_, _, .unreadable hread, hstate, hscene, hdump, .done (.error ?_)⟩
    exact Audit.failure_moved hscene (.unreadable hscene.path fault)
  | @read _ scene dump text parsed hread hparsed =>
    cases hphase
    rw [hstate.tree.readText hm hscene.path] at hread
    refine ⟨_, _, .read hread hparsed, hstate, hscene, hdump, .resolving parsed ?_⟩
    rw [List.forall₂_map_left_iff, List.forall₂_map_right_iff, List.forall₂_same]
    exact fun b _ => ⟨rfl, .untouched⟩
  | @advance _ _ scene dump parsed before behind b progress progress' hunfinished hadvance =>
    cases hphase with
    | resolving _ htasks =>
      obtain ⟨before', ⟨b', progress''⟩, behind', rfl, hbefore, ⟨rfl, hprogress⟩, hbehind⟩ :=
        Lookup.exists_of_related_append htasks
      obtain ⟨hnext, hprogress'⟩ := hprogress.advance hstate hregistry hroot hroot' b
      rw [hadvance] at hnext hprogress'
      refine ⟨_, _, .advance (fun hend => hunfinished (hprogress.finished_iff.mpr hend)) rfl, hnext,
        hscene, hdump, .resolving parsed ?_⟩
      exact List.rel_append hbefore (.cons ⟨rfl, hprogress'⟩ hbehind)
  | @dumped _ scene dump parsed tasks tree hfinished hwrite =>
    cases hphase with
    | resolving _ htasks =>
      rcases Audit.writeDump_moved hstate.tree hdump (Hierarchy.ofScene parsed) with
        ⟨tree₁, tree', hwrite₁, hwrite', htree⟩ | ⟨fault, fault', hwrite₁, -, -⟩
      · obtain rfl := Except.ok.inj (hwrite.symm.trans hwrite₁)
        refine ⟨_, _, .dumped (Task.Moved.finished htasks hfinished) hwrite',
          ⟨htree, hstate.used, hstate.resolver⟩, hscene, hdump, .done (.ok ?_)⟩
        exact Audit.summary_moved hscene hdump parsed _
      · exact nomatch hwrite.symm.trans hwrite₁
  | @notDumped _ scene dump parsed tasks fault hfinished hwrite =>
    cases hphase with
    | resolving _ htasks =>
      rcases Audit.writeDump_moved hstate.tree hdump (Hierarchy.ofScene parsed) with
        ⟨tree₁, tree', hwrite₁, -, -⟩ | ⟨fault₁, fault', hwrite₁, hwrite', hfault⟩
      · exact nomatch hwrite.symm.trans hwrite₁
      · obtain rfl := Except.error.inj (hwrite.symm.trans hwrite₁)
        exact ⟨_, _, .notDumped (Task.Moved.finished htasks hfinished) hwrite', hstate, hscene,
          hdump, .done (.error (Audit.failure_moved hscene hfault))⟩

end Jobs

/-- States of audits of one project at two places. -/
structure Schedule.Moved (root output : Placement) (s s' : Schedule) : Prop where
  pending : List.Forall₂ (SourceFile.MovedScript root) s.pending s'.pending
  registry : s.registry.Moved root s'.registry
  state : s.state.Moved root output s'.state
  jobs : List.Forall₂ (Job.Moved root output) s.jobs s'.jobs

namespace Schedule.Moved

variable {config : Config} {root output : Placement} {s s' next : Schedule}

/-- A step of an audit can be taken at both places. -/
theorem step (h : s.Moved root output s') (hsuffix : ¬ DumpPlan.Climbs config.metaSuffix)
    (hroot : root.path ≠ []) (hroot' : root.path' ≠ []) (hstep : Step config s next) :
    ∃ next', Step config s' next' ∧ next.Moved root output next' := by
  obtain ⟨hpending, hregistry, hstate, hjobs⟩ := h
  rcases s' with ⟨pending', registry', state', jobs'⟩
  cases hstep with
  | register =>
    obtain ⟨before', script', after', rfl, hbefore, hscript, hafter⟩ :=
      Lookup.exists_of_related_append hpending
    exact ⟨_, .register, List.rel_append hbefore hafter,
      Audit.registerScript_moved hsuffix hstate.tree hregistry hscript, hstate, hjobs⟩
  | work hjob =>
    cases hpending
    obtain ⟨before', job', after', rfl, hbefore, hmoved, hafter⟩ :=
      Lookup.exists_of_related_append hjobs
    obtain ⟨next', job'', hstep', hnext, hjob'⟩ :=
      hmoved.step hstate hregistry hroot hroot' hjob
    exact ⟨_, .work hstep', .nil, hregistry, hnext, List.rel_append hbefore (.cons hjob' hafter)⟩

theorem reaches (h : s.Moved root output s') (hsuffix : ¬ DumpPlan.Climbs config.metaSuffix)
    (hroot : root.path ≠ []) (hroot' : root.path' ≠ []) (hreaches : Reaches config s next) :
    ∃ next', Reaches config s' next' ∧ next.Moved root output next' := by
  induction hreaches with
  | refl => exact ⟨s', .refl, h⟩
  | tail _ hstep ih =>
    obtain ⟨middle, hmiddle, hmoved⟩ := ih
    obtain ⟨next', hstep', hnext⟩ := hmoved.step hsuffix hroot hroot' hstep
    exact ⟨next', hmiddle.tail hstep', hnext⟩

theorem finished (h : s.Moved root output s') (hfinished : s.Finished) : s'.Finished := by
  constructor
  · have hpending := h.pending
    rw [hfinished.registered] at hpending
    exact List.forall₂_nil_left_iff.mp hpending
  · have hjobs := h.jobs
    have hdone := hfinished.done
    generalize s.jobs = jobs, s'.jobs = jobs' at hjobs hdone
    induction hjobs with
    | nil => exact nofun
    | @cons job job' jobs jobs' hjob _ ih =>
      obtain ⟨⟨outcome, houtcome⟩, hrest⟩ := List.forall_mem_cons.mp hdone
      refine List.forall_mem_cons.mpr ⟨?_, ih hrest⟩
      have hphase := hjob.phase
      rw [houtcome] at hphase
      generalize job'.phase = phase at hphase
      cases hphase with
      | done => exact ⟨_, rfl⟩

theorem outcomes (h : s.Moved root output s') :
    List.Forall₂ (Audit.MovedOutcome root output) s.outcomes s'.outcomes := by
  refine List.rel_filterMap (fun job job' hjob => ?_) h.jobs
  have hphase := hjob.phase
  unfold Job.outcome?
  generalize job.phase = phase, job'.phase = phase' at hphase
  cases hphase with
  | done houtcome => exact .some houtcome
  | _ => exact .none

end Schedule.Moved

section Ends

variable {config : Config} {root output : Placement} {tree tree' : FileTree}
  (h : Relocated config root output tree tree')

include h

theorem Relocated.start :
    (Schedule.start ⟨tree, config, root.path, output.path⟩).Moved root output
      (.start ⟨tree', config, root.path', output.path'⟩) := by
  refine ⟨h.scripts, .empty root, h.state, ?_⟩
  rw [Schedule.start, Schedule.start, List.forall₂_map_left_iff, List.forall₂_map_right_iff]
  exact h.jobs.imp fun _ _ he => ⟨he.1, he.2, .waiting⟩

theorem Relocated.exists_end {final : Schedule}
    (hend : Schedule.EndOf ⟨tree, config, root.path, output.path⟩ final) :
    ∃ final', Schedule.EndOf ⟨tree', config, root.path', output.path'⟩ final' ∧
      (final.report ⟨tree, config, root.path, output.path⟩).Moved root output
        (final'.report ⟨tree', config, root.path', output.path'⟩) ∧
      Mirrored [root, output] final.state.tree final'.state.tree := by
  obtain ⟨final', hreaches, hmoved⟩ :=
    h.start.reaches h.metaSuffix h.named.1 h.named.2 hend.reaches
  obtain ⟨hscenes, hfailures⟩ := Audit.filterMap_moved hmoved.outcomes
  refine ⟨final', ⟨hreaches, hmoved.finished hend.finished⟩, ?_, hmoved.state.tree⟩
  refine AuditReport.moved_of ?_ (List.Forall₂.length_eq h.scripts) hmoved.registry.size hscenes
    hfailures
  have hunused := hmoved.registry.unusedScripts h.named.1 h.named.2
  exact (hunused _).trans (congrArg (Audit.unusedScripts root.path' _) hmoved.state.used)

theorem Relocated.map_relativeTo {found : List SourceFile}
    (hfound : ∀ f ∈ found, Path.isAbsolute f.path = false) :
    (found.map (SourceFile.inside root.path)).map (fun f => Path.relativeTo root.path f.path) =
      (found.map (SourceFile.inside root.path')).map
        fun f => Path.relativeTo root.path' f.path := by
  rw [List.map_map, List.map_map]
  refine List.map_congr_left fun f hf => ?_
  exact (Path.relativeTo_join h.named.1 (hfound f hf)).trans
    (Path.relativeTo_join h.named.2 (hfound f hf)).symm

end Ends

/-- Where a project lies does not matter. The same scripts and scenes are found, at the same paths
as seen from the root and in the same order, a run reports the same, but for the beginnings of the
paths, and writes the same dumps; and so it is with whatever an audit may come to, whatever the
schedule. -/
theorem location_irrelevant {tree tree' made made' : FileTree} {config : Config}
    {root output : Placement} (h : Relocated config root output made made')
    (hroot : tree.isDirectory root.path = true) (hroot' : tree'.isDirectory root.path' = true)
    (hmade : tree.makeDirectories output.path = .ok made)
    (hmade' : tree'.makeDirectories output.path' = .ok made') :
    let p : Project := ⟨made, config, root.path, output.path⟩
    let p' : Project := ⟨made', config, root.path', output.path'⟩
    (∃ scripts scenes : List SourceFile, (∀ f ∈ scripts ++ scenes, Path.Inner f.path) ∧
      p.scripts = scripts.map (SourceFile.inside p.root) ∧
      p'.scripts = scripts.map (SourceFile.inside p'.root) ∧
      p.scenes = scenes.map (SourceFile.inside p.root) ∧
      p'.scenes = scenes.map (SourceFile.inside p'.root)) ∧
    ((p.scripts.map fun f => Path.relativeTo p.root f.path) =
        (p'.scripts.map fun f => Path.relativeTo p'.root f.path) ∧
      (p.scenes.map fun f => Path.relativeTo p.root f.path) =
        p'.scenes.map fun f => Path.relativeTo p'.root f.path) ∧
    (∃ after report after' report',
      Audit.run tree config root.path output.path = .ok (after, report) ∧
      Audit.run tree' config root.path' output.path' = .ok (after', report') ∧
      report.Moved root output report' ∧ Mirrored [root, output] after after') ∧
    ∀ final, Schedule.EndOf p final → ∃ final', Schedule.EndOf p' final' ∧
      (final.report p).Moved root output (final'.report p') ∧
      Mirrored [root, output] final.state.tree final'.state.tree := by
  intro p p'
  obtain ⟨scripts, hscripts, hscripts', hlisted⟩ := h.exists_scripts
  obtain ⟨scenes, hscenes, hscenes', hinner⟩ := h.exists_scenes
  refine ⟨⟨scripts, scenes, ?_, hscripts, hscripts', hscenes, hscenes'⟩, ⟨?_, ?_⟩, ?_,
    fun final hend => h.exists_end hend⟩
  · exact List.forall_mem_append.mpr ⟨fun f hf => (hlisted f hf).inner, fun f hf => (hinner f hf).1⟩
  · rw [Project.scripts, Project.scripts, hscripts, hscripts']
    exact h.map_relativeTo fun f hf => (hlisted f hf).inner.relative
  · rw [Project.scenes, Project.scenes, hscenes, hscenes']
    exact h.map_relativeTo fun f hf => (hinner f hf).1.relative
  · obtain ⟨hafter, hreport⟩ := h.audit
    refine ⟨_, _, _, _, Audit.run_eq_ok_iff.mpr ?_, Audit.run_eq_ok_iff.mpr ?_, hreport, hafter⟩
    · exact ⟨pathExists_of_isDirectory hroot, hroot, made, hmade, rfl⟩
    · exact ⟨pathExists_of_isDirectory hroot', hroot', made', hmade', rfl⟩

/-- A project in a directory that an exclusion pattern speaks of, under a path with repeated
slashes, and a copy of it that a relative path leads to. -/
theorem location_irrelevant_of_two_copies :
    let file := fun (names : Location) (text : String) =>
      (names, Entry.file (Utf8.encode text.toList))
    let project : List (Location × Entry) := [([], .directory), (["S".toList], .directory),
      file ["A.cs".toList] "class A \x7b \x7d", file ["A.cs.meta".toList] "guid: a\n",
      file ["B.cs".toList] "class B \x7b \x7d", file ["B.cs.meta".toList] "guid: b\n",
      file ["S".toList, "M.unity".toList]
        "--- !u!114 &1\nMonoBehaviour:\n  m_Script: \x7bguid: a\x7d\n"]
    let copy := fun base : Location => project.map fun e => (base ++ e.1, e.2)
    let tree : FileTree := ⟨[(["obj".toList], .directory), ([['v']], .directory),
      ([['o']], .directory), ([['z']], .directory)] ++ copy ["obj".toList, ['p']] ++
      copy [['v'], ['q']], [['v']]⟩
    let config := { Config.default with sceneDirs := ["S/".toList] }
    let root : Placement := ⟨"//obj/p/".toList, ['q'], ["obj".toList, ['p']], [['v'], ['q']]⟩
    let output : Placement := ⟨"/o".toList, "../z".toList, [['o']], [['z']]⟩
    Relocated config root output tree tree ∧
      ∃ after report after' report',
        Audit.run tree config root.path output.path = .ok (after, report) ∧
        Audit.run tree config root.path' output.path' = .ok (after', report') ∧
        report'.unused = [⟨"B.cs".toList, ['b']⟩] ∧ report'.scenesProcessed = 1 ∧
        report.Moved root output report' := by
  simp -zeta only [Utf8.encode_toList]
  repeat rw [String.toList_ofList]
  intro file project copy tree config root output
  have hmirrored : Mirrored [root, output] tree tree :=
    .of_below (by decide +kernel) (by decide +kernel) (by decide +kernel)
  have htree : tree.WellFormed := by decide +kernel
  have h : Relocated config root output tree tree :=
    ⟨by decide, by decide, by decide, by decide, ⟨htree, htree⟩, by decide +kernel, hmirrored⟩
  have hroot : tree.isDirectory root.path = true := by decide +kernel
  have hroot' : tree.isDirectory root.path' = true := by decide +kernel
  have hmade : tree.makeDirectories output.path = .ok tree := rfl
  have hmade' : tree.makeDirectories output.path' = .ok tree := rfl
  have hvalues : (Audit.run tree config root.path output.path).toOption.map
      (fun r => (r.2.unused, r.2.scenesProcessed)) = some ([⟨['B', '.', 'c', 's'], ['b']⟩], 1) := by
    decide +kernel
  obtain ⟨-, -, ⟨after, report, after', report', hrun, hrun', hmoved, -⟩, -⟩ :=
    location_irrelevant h hroot hroot' hmade hmade'
  rw [hrun] at hvalues
  obtain ⟨hunused, hprocessed⟩ := Prod.mk.inj (Option.some.inj hvalues)
  exact ⟨h, after, report, after', report', hrun, hrun', hmoved.unused.symm.trans hunused,
    hmoved.scenesProcessed.symm.trans hprocessed, hmoved⟩

/-- Without ignore files above it, a project still meets its surroundings: a repository above it
makes its `.gitignore` count, suffixes that climb lead sidecars and dumps to files around it, and
dumps may be written into it or find the output directory occupied. -/
theorem not_location_irrelevant_of_surroundings :
    let file := fun (names : Location) (text : String) =>
      (names, Entry.file (Utf8.encode text.toList))
    let scene := "--- !u!1 &1\nGameObject:\n  m_Name: x\n--- !u!4 &2\nTransform:\n" ++
      "  m_GameObject: \x7bfileID: 1\x7d\n"
    let project : List (Location × Entry) := [([], .directory), (["S".toList], .directory),
      file [".gitignore".toList] "B.cs\n", file ["A.cs".toList] "", file ["B.cs".toList] "",
      (["A.cs.x".toList], .directory), file ["S".toList, "A.unity".toList] scene,
      file ["S".toList, "A.unity.unity".toList] scene]
    let copy := fun base : Location => project.map fun e => (base ++ e.1, e.2)
    let tree : FileTree := ⟨[([['v']], .directory), ([['w']], .directory),
      ([['w'], ".git".toList], .directory), ([['o']], .directory), ([['z']], .directory),
      ([['o'], "A.unity.d".toList], .directory), ([['o'], "A.unity.unity.d".toList], .directory),
      file ["secret".toList] "guid: s\n"] ++
      copy [['p']] ++ copy [['v'], ['q']] ++ copy [['w'], ['r']], []⟩
    let config := fun metaSuffix dumpSuffix : String => { Config.default with
      sceneDirs := [['S']]
      metaSuffix := metaSuffix.toList
      report := { Config.default.report with dumpSuffix := dumpSuffix.toList } }
    let found := fun root : String =>
      (Finder.scripts tree .default root.toList).map fun f => Path.relativeTo root.toList f.path
    let registered := fun (config : Config) (root output : String) =>
      (Audit.run tree config root.toList output.toList).toOption.map fun r => r.2.scriptsRegistered
    let objects := fun (config : Config) (root output : String) =>
      (Audit.run tree config root.toList output.toList).toOption.map fun r =>
        r.2.scenes.map SceneSummary.objects
    tree.WellFormed ∧
      Mirrored [⟨"/p".toList, "/v/q".toList, [['p']], [['v'], ['q']]⟩] tree tree ∧
      Mirrored [⟨"/p".toList, "/w/r".toList, [['p']], [['w'], ['r']]⟩] tree tree ∧
      (∀ loc ∈ [[['p']], [['v'], ['q']], [['w'], ['r']]], ∀ dir ∈ IgnoreFiles.above loc,
        ∀ names ∈ IgnoreFiles.fileNames, tree.entryAt (dir ++ names) = none) ∧
      (found "/p" = ["A.cs".toList, "B.cs".toList] ∧ found "/w/r" = ["A.cs".toList]) ∧
      (registered (config "x/../../secret" "dump") "/p" "/z" = some 1 ∧
        registered (config "x/../../secret" "dump") "/v/q" "/z" = some 0) ∧
      (objects (config "meta" "d/../../p/S/A.unity.unity") "/p" "/o" = some [1, 0] ∧
        objects (config "meta" "d/../../p/S/A.unity.unity") "/v/q" "/o" = some [1, 1]) ∧
      (objects (config "meta" "unity") "/p" "/p/S" = some [1, 0] ∧
        objects (config "meta" "unity") "/v/q" "/p/S" = some [1, 1]) ∧
      (objects (config "meta" "d") "/p" "/o" = some [] ∧
        objects (config "meta" "d") "/v/q" "/z" = some [1, 1]) := by
  simp -zeta only [Utf8.encode_toList]
  repeat rw [String.toList_ofList]
  intro file scene project copy tree config found registered objects
  have hmirrored : Mirrored [⟨"/p".toList, "/v/q".toList, [['p']], [['v'], ['q']]⟩] tree tree :=
    .of_below (by decide +kernel) (by decide +kernel) (by decide +kernel)
  have hmirrored' : Mirrored [⟨"/p".toList, "/w/r".toList, [['p']], [['w'], ['r']]⟩] tree tree :=
    .of_below (by decide +kernel) (by decide +kernel) (by decide +kernel)
  exact ⟨by decide +kernel, hmirrored, hmirrored', by decide +kernel⟩

end SceneAudit
