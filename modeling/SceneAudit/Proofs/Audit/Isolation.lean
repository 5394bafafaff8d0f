import SceneAudit.Proofs.Audit.Dumps
import SceneAudit.Proofs.Audit.Reports
import SceneAudit.Proofs.Discovery.Order
import SceneAudit.Proofs.Files.Making

/-! # Scenes do not touch each other

Whatever the schedule, a scene comes to what it comes to when nothing else is done. It shares the
registry, the marks, the tables and the output directory with all other scenes, but its outcome
depends on none of the first three, and no other dump is written where its own dump leads through.
-/

namespace SceneAudit

open Scene FileTree

/-- No dump is written over a scene. -/
def Project.ScenesApart (p : Project) : Prop :=
  ∀ dump ∈ p.dumps.filterMap id, ∀ scene ∈ p.scenes, p.tree.sameFile dump scene.path = false

instance : DecidablePred Project.ScenesApart := fun _ =>
  inferInstanceAs (Decidable (∀ _ ∈ _, ∀ _ ∈ _, _ = _))

/-- The files and the outcome of a scene when nothing else is done. -/
def Project.alone (p : Project) (scene : SourceFile) (dump : Option Text) :
    FileTree × Except SceneFailure SceneSummary :=
  let (state, outcome) := Audit.processScene p.config .empty p.state scene dump
  (state.tree, outcome)

/-- What keeps the scenes of a project from each other. -/
structure Project.Separate (p : Project) : Prop where
  wellFormed : p.tree.WellFormed
  scenes : p.ScenesApart
  suffix : ¬ DumpPlan.Climbs p.config.report.dumpSuffix

def Project.Trail (p : Project) (dump : Option Text) (l : Location) : Prop :=
  ∃ path, dump = some path ∧ l ∈ p.tree.trail path

section Dump

variable {tree tree' after : FileTree} {dump : Option Text} {hierarchy : Hierarchy}

theorem Audit.writeDump_congr {S : Location → Prop} (hierarchy : Hierarchy)
    (h : AgreeOn S tree tree') (hS : ∀ path, dump = some path → ∀ l ∈ tree.trail path, S l) :
    (∀ fault, writeDump tree dump hierarchy = .error fault →
      writeDump tree' dump hierarchy = .error fault) ∧
    ∀ after, writeDump tree dump hierarchy = .ok after →
      ∃ after', writeDump tree' dump hierarchy = .ok after' ∧ AgreeOn S after after' := by
  cases dump with
  | none =>
    refine ⟨nofun, fun after hafter => ?_⟩
    obtain rfl := Except.ok.inj hafter
    exact ⟨tree', rfl, h⟩
  | some path =>
    unfold writeDump
    have hwrite := h.write (hS path rfl) (Utf8.encode hierarchy.render)
    dsimp only
    generalize tree.write path _ = result, tree'.write path _ = result' at hwrite
    cases hwrite with
    | error fault => exact ⟨fun _ => id, nofun⟩
    | ok hagree =>
      refine ⟨nofun, fun after hafter => ?_⟩
      obtain rfl := Except.ok.inj hafter
      exact ⟨_, rfl, hagree⟩

end Dump

section Alone

variable {p p' : Project} {scene : SourceFile} {dump : Option Text}

theorem Audit.tree_resolveBehavior (registry : Registry) (state : RunState) (b : Behavior) :
    (resolveBehavior registry state b).tree = state.tree := by
  unfold resolveBehavior
  split
  · rfl
  · split <;> rfl

theorem Audit.tree_resolveBehaviors (registry : Registry) (state : RunState) (bs : List Behavior) :
    (bs.foldl (resolveBehavior registry) state).tree = state.tree := by
  induction bs generalizing state with
  | nil => rfl
  | cons b bs ih => rw [List.foldl_cons, ih, tree_resolveBehavior]

theorem Project.alone_of_unreadable (dump : Option Text) {fault : Fault}
    (hread : p.tree.readText scene.path = .error fault) : p.alone scene dump =
      (p.tree, .error (Audit.failure scene (.unreadable scene.path fault))) := by
  have hread' : p.state.tree.readText scene.path = .error fault := hread
  rw [alone, Audit.processScene, hread']
  rfl

theorem Project.alone_of_text (dump : Option Text) {text : Text} {parsed : Scene}
    (hread : p.tree.readText scene.path = .ok text)
    (hparsed : Scene.parse p.config.usage.reservedFields text = parsed) : p.alone scene dump =
      match Audit.writeDump p.tree dump (Hierarchy.ofScene parsed) with
      | .error fault => (p.tree, .error (Audit.failure scene fault))
      | .ok tree => (tree, .ok (Audit.summary scene dump parsed (Hierarchy.ofScene parsed))) := by
  subst hparsed
  have hread' : p.state.tree.readText scene.path = .ok text := hread
  have htree : ((Scene.parse p.config.usage.reservedFields text).behaviors.foldl
      (Audit.resolveBehavior .empty) p.state).tree = p.tree := Audit.tree_resolveBehaviors ..
  rw [alone, Audit.processScene, hread']
  dsimp only
  rw [htree]
  cases Audit.writeDump p.tree dump _ with
  | error fault => exact Prod.ext htree rfl
  | ok after => rfl

theorem Project.alone_congr (hconfig : p.config = p'.config)
    (hread : p.tree.readText scene.path = p'.tree.readText scene.path)
    (hagree : AgreeOn (p.Trail dump) p.tree p'.tree) :
    (p.alone scene dump).2 = (p'.alone scene dump).2 ∧
      AgreeOn (p.Trail dump) (p.alone scene dump).1 (p'.alone scene dump).1 := by
  cases htext : p.tree.readText scene.path with
  | error fault =>
    rw [alone_of_unreadable dump htext, alone_of_unreadable dump (hread ▸ htext)]
    exact ⟨rfl, hagree⟩
  | ok text =>
    have hwrite := Audit.writeDump_congr
      (Hierarchy.ofScene (Scene.parse p.config.usage.reservedFields text)) hagree
      fun path hpath l hl => ⟨path, hpath, hl⟩
    rw [alone_of_text dump htext rfl, alone_of_text dump (hread ▸ htext) rfl, ← hconfig]
    split
    · rename_i fault hfault
      rw [hwrite.1 fault hfault]
      exact ⟨rfl, hagree⟩
    · rename_i after hafter
      obtain ⟨after', hafter', hagree'⟩ := hwrite.2 after hafter
      rw [hafter']
      exact ⟨rfl, hagree'⟩

end Alone

section Written

variable {p : Project} {before after tree : FileTree} {dump other : Option Text}

/-- Files change by the writing of a dump, or not at all. -/
def DumpedTo (dump : Option Text) (before after : FileTree) : Prop :=
  after = before ∨ ∃ path content, dump = some path ∧ before.write path content = .ok after

theorem DumpedTo.frame (h : DumpedTo dump before after) (hdump : dump ∈ p.dumps)
    (hframe : Frame p.Written p.tree before) : Frame p.Written p.tree after := by
  rcases h with rfl | ⟨path, content, rfl, hwrite⟩
  · exact hframe
  · exact hframe.write hwrite fun loc hloc => ⟨path, hdump, hloc⟩

theorem DumpedTo.agreeOn (h : DumpedTo dump before after)
    (hsuffix : ¬ DumpPlan.Climbs p.config.report.dumpSuffix) (hdump : dump ∈ p.dumps)
    (hother : other ∈ p.dumps) (hapart : DumpPlan.Apart dump other)
    (hcurrent : before.current = p.tree.current) (hagree : AgreeOn (p.Trail other) before tree) :
    AgreeOn (p.Trail other) after tree := by
  rcases h with rfl | ⟨path, content, rfl, hwrite⟩
  · exact hagree
  obtain ⟨dir, name, hloc, -, -, hnew, rfl⟩ := write_eq_ok hwrite
  refine hagree.put_elsewhere (by simp) ?_ _
  rintro ⟨path', rfl, hmem⟩
  obtain ⟨r, hr, rfl⟩ := DumpPlan.exists_isName_of_mem_ofTexts hdump
  obtain ⟨r', hr', rfl⟩ := DumpPlan.exists_isName_of_mem_ofTexts hother
  have hne : r ≠ r' := by
    rintro rfl
    exact hapart _ rfl rfl
  have htrail : before.trail (Path.join p.output r') = p.tree.trail (Path.join p.output r') := by
    rw [FileTree.trail, FileTree.trail, origin, origin, hcurrent]
  exact not_mem_trail_of_isName hr hr' hsuffix hne hloc hnew (htrail ▸ hmem)

theorem Project.entryOf_dump {path : Text} (hdump : dump = some path)
    (hcurrent : tree.current = p.tree.current) (h : AgreeOn (p.Trail dump) tree after) :
    tree.entryOf path = after.entryOf path := by
  refine h.entryOf fun l hl => ⟨path, hdump, ?_⟩
  rwa [FileTree.trail, origin, hcurrent] at hl

end Written

/-- The files along the path of a scene's dump, as far as the work on the scene has come. -/
def Job.files (p : Project) (job : Job) : FileTree :=
  match job.phase with
  | .done _ => (p.alone job.scene job.dump).1
  | _ => p.tree

/-- The work on a scene has come to what it comes to when nothing else is done. -/
def Phase.Alone (p : Project) (scene : SourceFile) (dump : Option Text) : Phase → Prop
  | .waiting => True
  | .resolving parsed _ => ∃ text, p.tree.readText scene.path = .ok text ∧
      Scene.parse p.config.usage.reservedFields text = parsed
  | .done outcome => outcome = (p.alone scene dump).2

/-- What every schedule leaves to a scene. -/
structure Job.Isolated (p : Project) (tree : FileTree) (job : Job) : Prop where
  phase : job.phase.Alone p job.scene job.dump
  files : AgreeOn (p.Trail job.dump) tree (job.files p)

theorem Progress.tree_advance {registry : Registry} {state state' : RunState} {b : Behavior}
    {progress progress' : Progress}
    (h : progress.advance registry state b = (state', progress')) : state'.tree = state.tree := by
  cases progress with
  | unmarked =>
    rw [advance] at h
    split at h <;> rw [← (Prod.mk.inj h).1]
  | present path =>
    rw [advance] at h
    split at h <;> rw [← (Prod.mk.inj h).1]
  | _ => rw [← (Prod.mk.inj h).1]

theorem Job.Step.dumpedTo {config : Config} {registry : Registry} {state state' : RunState}
    {job job' : Job} (h : Step config registry (state, job) (state', job')) :
    DumpedTo job.dump state.tree state'.tree := by
  cases h with
  | unreadable | read | notDumped => exact Or.inl rfl
  | advance _ hadvance => exact Or.inl (Progress.tree_advance hadvance)
  | dumped _ hwrite =>
    rcases Audit.writeDump_eq_ok hwrite with ⟨-, htree⟩ | ⟨path, hpath, hwrite⟩
    · exact Or.inl htree
    · exact Or.inr ⟨path, _, hpath, hwrite⟩

theorem Project.Separate.readText_eq {p : Project} (hp : p.Separate) {tree : FileTree}
    (hframe : Frame p.Written p.tree tree) {scene : SourceFile} (hscene : scene ∈ p.scenes) :
    tree.readText scene.path = p.tree.readText scene.path := by
  have hfile := Finder.isFile_of_mem_scenes hp.wellFormed hscene
  obtain ⟨loc, hloc, hkept⟩ :=
    exists_locate_of_apart hfile fun dump hdump => hp.scenes dump hdump scene hscene
  exact hframe.readText hloc hkept

theorem Job.Isolated.done {p : Project} {tree files : FileTree} {scene : SourceFile}
    {dump : Option Text} {outcome : Except SceneFailure SceneSummary}
    (halone : p.alone scene dump = (files, outcome)) (h : AgreeOn (p.Trail dump) tree files) :
    (Job.mk scene dump (.done outcome)).Isolated p tree where
  phase := (congrArg Prod.snd halone).symm
  files := by
    rw [Job.files, halone]
    exact h

theorem Job.Isolated.writeDump_congr {p : Project} {tree : FileTree} {scene : SourceFile}
    {dump : Option Text} {parsed : Scene} {tasks : List Task} {hierarchy : Hierarchy}
    (h : (resolving scene dump parsed tasks).Isolated p tree) :
    (∀ fault, Audit.writeDump tree dump hierarchy = .error fault →
      Audit.writeDump p.tree dump hierarchy = .error fault) ∧
    ∀ after, Audit.writeDump tree dump hierarchy = .ok after →
      ∃ after', Audit.writeDump p.tree dump hierarchy = .ok after' ∧
        AgreeOn (p.Trail dump) after after' :=
  Audit.writeDump_congr hierarchy h.files fun path hpath _ hl => ⟨path, hpath, h.files.trail ▸ hl⟩

/-- A step of the work on a scene leaves to it what it comes to alone. -/
theorem Job.Isolated.step {p : Project} (hp : p.Separate) {registry : Registry}
    {state state' : RunState} {job job' : Job} (hscene : job.scene ∈ p.scenes)
    (hframe : Frame p.Written p.tree state.tree) (h : job.Isolated p state.tree)
    (hstep : Job.Step p.config registry (state, job) (state', job')) :
    job'.Isolated p state'.tree := by
  have hread_eq := hp.readText_eq hframe hscene
  cases hstep with
  | @unreadable _ scene dump fault hread =>
    have halone := Project.alone_of_unreadable dump (hread_eq.symm.trans hread)
    exact .done halone h.files
  | read hread hparsed => exact ⟨⟨_, hread_eq.symm.trans hread, hparsed⟩, h.files⟩
  | advance hunfinished hadvance =>
    have htree := Progress.tree_advance hadvance
    exact ⟨h.phase, htree ▸ h.files⟩
  | @dumped _ scene dump parsed tasks after hfinished hwrite =>
    obtain ⟨text, hread, hparsed⟩ := h.phase
    have halone := Project.alone_of_text dump hread hparsed
    obtain ⟨after', hafter, hagree⟩ := (h.writeDump_congr).2 after hwrite
    rw [hafter] at halone
    exact .done halone hagree
  | @notDumped _ scene dump parsed tasks fault hfinished hwrite =>
    obtain ⟨text, hread, hparsed⟩ := h.phase
    have halone := Project.alone_of_text dump hread hparsed
    rw [(h.writeDump_congr).1 fault hwrite] at halone
    exact .done halone h.files

theorem Project.agreeOn_others {p : Project} {tree after : FileTree} {before behind : List Job}
    {job other : Job} (hsuffix : ¬ DumpPlan.Climbs p.config.report.dumpSuffix)
    (hjobs : (before ++ job :: behind).map (fun job => (job.scene, job.dump)) =
      p.scenes.zip p.dumps)
    (hcurrent : tree.current = p.tree.current) (hwritten : DumpedTo job.dump tree after)
    (hother : other ∈ before ++ behind) : AgreeOn (p.Trail other.dump) after tree := by
  have hdumps : (before ++ job :: behind).map Job.dump = p.dumps := by
    have hsnd := congrArg (List.map Prod.snd) hjobs
    rwa [List.map_map, List.map_snd_zip p.length_dumps.le] at hsnd
  have hmem : other ∈ before ++ job :: behind := by
    rw [List.mem_append, List.mem_cons]
    exact (List.mem_append.mp hother).imp_right Or.inr
  have hdump : job.dump ∈ p.dumps := hdumps ▸ List.mem_map_of_mem (by simp)
  have hdump' : other.dump ∈ p.dumps := hdumps ▸ List.mem_map_of_mem hmem
  have hapart : DumpPlan.Apart job.dump other.dump := by
    have hpairwise :
        (before ++ job :: behind).Pairwise fun a b => DumpPlan.Apart a.dump b.dump := by
      rw [← List.pairwise_map, hdumps]
      exact DumpPlan.pairwise_ofTexts ..
    rw [List.pairwise_middle DumpPlan.Apart.symm, List.pairwise_cons] at hpairwise
    exact hpairwise.1 other hother
  exact hwritten.agreeOn hsuffix hdump hdump' hapart hcurrent (AgreeOn.refl _ _)

/-- What holds in every state of an audit. -/
structure Undisturbed (p : Project) (s : Schedule) : Prop where
  frame : Frame p.Written p.tree s.state.tree
  jobs : s.jobs.map (fun job => (job.scene, job.dump)) = p.scenes.zip p.dumps
  isolated : ∀ job ∈ s.jobs, job.Isolated p s.state.tree

namespace Undisturbed

variable {p : Project} {s s' : Schedule}

theorem start (p : Project) : Undisturbed p (.start p) where
  frame := Frame.refl _ _
  jobs := Schedule.jobs_start p
  isolated := by
    intro job hjob
    obtain ⟨e, -, rfl⟩ := List.mem_map.mp hjob
    exact ⟨trivial, AgreeOn.refl _ _⟩

theorem step (hp : p.Separate) (h : Undisturbed p s) (hstep : Schedule.Step p.config s s') :
    Undisturbed p s' := by
  have hsame := hstep.jobs_eq.trans h.jobs
  cases hstep with
  | register => exact ⟨h.frame, h.jobs, h.isolated⟩
  | @work registry state state' before after job job' hjob =>
    have hmem : (job.scene, job.dump) ∈ p.scenes.zip p.dumps := by
      rw [← h.jobs]
      simp
    obtain ⟨hscene, hdump⟩ := List.of_mem_zip hmem
    have hisolated := Job.Isolated.step hp hscene h.frame (h.isolated job (by simp)) hjob
    have hkept : ∀ other ∈ before ++ after, other.Isolated p state'.tree := by
      intro other hother
      have hmem : other ∈ before ++ job :: after := by
        rw [List.mem_append, List.mem_cons]
        exact (List.mem_append.mp hother).imp_right Or.inr
      have hold := h.isolated other hmem
      exact ⟨hold.phase, (Project.agreeOn_others hp.suffix h.jobs h.frame.current hjob.dumpedTo
        hother).trans hold.files⟩
    refine ⟨hjob.dumpedTo.frame hdump h.frame, hsame, ?_⟩
    obtain ⟨hbefore, hafter⟩ := List.forall_mem_append.mp hkept
    exact List.forall_mem_append.mpr ⟨hbefore, List.forall_mem_cons.mpr ⟨hisolated, hafter⟩⟩

theorem of_reaches (hp : p.Separate) (h : Schedule.Reaches p.config (.start p) s) :
    Undisturbed p s := by
  induction h with
  | refl => exact start p
  | tail _ hstep ih => exact ih.step hp hstep

theorem outcomes_eq (h : Undisturbed p s) (hfinished : s.Finished) :
    s.outcomes = (p.scenes.zip p.dumps).map fun e => (p.alone e.1 e.2).2 := by
  rw [← h.jobs, List.map_map, Schedule.outcomes, ← List.filterMap_eq_map]
  refine List.filterMap_congr fun job hjob => ?_
  obtain ⟨outcome, hdone⟩ := hfinished.done job hjob
  have hphase := (h.isolated job hjob).phase
  rw [hdone] at hphase
  rw [Job.outcome?, hdone]
  exact congrArg some hphase

/-- In the end the files along the path of a dump are what the scene alone leaves. -/
theorem agreeOn (h : Undisturbed p s) (hfinished : s.Finished) {e : SourceFile × Option Text}
    (he : e ∈ p.scenes.zip p.dumps) :
    AgreeOn (p.Trail e.2) s.state.tree (p.alone e.1 e.2).1 := by
  rw [← h.jobs] at he
  obtain ⟨job, hjob, rfl⟩ := List.mem_map.mp he
  obtain ⟨outcome, hdone⟩ := hfinished.done job hjob
  have hfiles := (h.isolated job hjob).files
  rwa [Job.files, hdone] at hfiles

end Undisturbed

end SceneAudit
