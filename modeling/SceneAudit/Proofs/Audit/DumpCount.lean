import SceneAudit.Proofs.Audit.Ownership

/-! # How many dumps an audit writes

A scene goes without a dump exactly if a scene before it asks for the same one, be it processed or
skipped. Whatever the schedule, the dumps that a report names are different from each other and are
files in the end, and the processed scenes are as many as these dumps and the scenes without one.
-/

namespace SceneAudit

open Scene FileTree

namespace DumpPlan

variable {output scene dump : OsPath} {suffix : Text} {scenes : List OsPath} {i : Nat}

/-- Two scenes ask for one dump. -/
def Clash (output : OsPath) (suffix : Text) (a b : OsPath) : Prop :=
  ∃ d d', target? output suffix a = some d ∧ target? output suffix b = some d' ∧
    OsPath.same d d' = true

theorem getElem?_plan_eq_none_iff (hscene : scenes[i]? = some scene)
    (htarget : target? output suffix scene = some dump) :
    (plan output suffix scenes)[i]? = some none ↔
      ∃ earlier ∈ scenes.take i, Clash output suffix earlier scene := by
  refine (getElem?_assign_eq_none_iff OsPath.same_trans hscene htarget).trans ?_
  have hasks : ∀ earlier, Clash output suffix earlier scene ↔
      ∃ d, target? output suffix earlier = some d ∧ OsPath.same dump d = true := by
    intro earlier
    simp only [Clash, htarget, Option.some.injEq, exists_and_left, exists_eq_left']
    exact exists_congr fun d =>
      and_congr_right fun _ => ⟨OsPath.same_symm _ _, OsPath.same_symm _ _⟩
  simp [IsFree, hasks]

/-- Where the suffix of dumps is one piece of a path, scenes of one file name ask for one dump. -/
theorem clash_encode_iff {output a b : Text} (hsuffix : '/' ∉ suffix) :
    Clash (Utf8.encode output) suffix (Utf8.encode a) (Utf8.encode b) ↔
      ∃ name, Path.fileName? a = some name ∧ Path.fileName? b = some name := by
  have htarget : ∀ {s : Text} {d}, target? (Utf8.encode output) suffix (Utf8.encode s) = some d ↔
      ∃ name, Path.fileName? s = some name ∧
        dumpOf (Utf8.encode output) suffix (Utf8.encode name) = d := by
    intro s d
    rw [target?, OsPath.fileName?_encode, Option.map_map, Option.map_eq_some_iff]
    rfl
  have hname : ∀ {s name : Text}, Path.fileName? s = some name →
      OsPath.IsName (Utf8.encode name) := by
    intro s name h
    have hfile : OsPath.fileName? (Utf8.encode s) = some (Utf8.encode name) := by
      rw [OsPath.fileName?_encode, h, Option.map_some]
    exact OsPath.isName_of_fileName? hfile
  constructor
  · rintro ⟨d, d', ha, hb, hsame⟩
    obtain ⟨name, hfile, rfl⟩ := htarget.mp ha
    obtain ⟨name', hfile', rfl⟩ := htarget.mp hb
    have hread := (same_dumpOf_iff (hname hfile) (hname hfile') hsuffix).mp hsame
    rw [Utf8.decodeLossy_encode, Utf8.decodeLossy_encode] at hread
    exact ⟨name, hfile, hread ▸ hfile'⟩
  · rintro ⟨name, ha, hb⟩
    exact ⟨_, _, htarget.mpr ⟨name, ha, rfl⟩, htarget.mpr ⟨name, hb, rfl⟩,
      (same_dumpOf_iff (hname ha) (hname hb) hsuffix).mpr rfl⟩

end DumpPlan

/-- A scene of the project that comes before a path asks for the same dump as that path. -/
def Project.Crowded (p : Project) (scene : Text) : Prop :=
  ∃ other ∈ p.scenes, Path.compare other.path scene = .lt ∧
    DumpPlan.Clash (Utf8.encode p.output) p.config.report.dumpSuffix (Utf8.encode other.path)
      (Utf8.encode scene)

theorem Finder.mem_take_iff {files : List SourceFile} {file other : SourceFile} {i : Nat}
    (h : files.Pairwise fun a b => Path.compare a.path b.path = .lt)
    (hfile : files[i]? = some file) :
    other ∈ files.take i ↔ other ∈ files ∧ Path.compare other.path file.path = .lt := by
  have hcut : files = files.take i ++ file :: files.drop (i + 1) := by
    obtain ⟨hi, rfl⟩ := List.getElem?_eq_some_iff.mp hfile
    rw [← List.drop_eq_getElem_cons hi, List.take_append_drop]
  rw [hcut] at h
  obtain ⟨-, hafter, hbefore⟩ := List.pairwise_append.mp h
  constructor
  · exact fun hother => ⟨List.mem_of_mem_take hother, hbefore other hother file (by simp)⟩
  · rintro ⟨hmem, hlt⟩
    rw [hcut] at hmem
    rcases List.mem_append.mp hmem with hmem | hmem
    · exact hmem
    · rcases List.mem_cons.mp hmem with rfl | hmem
      · exact absurd hlt (Path.not_lt_of_lt hlt)
      · exact absurd hlt (Path.not_lt_of_lt ((List.pairwise_cons.mp hafter).1 other hmem))

namespace Project

variable {p : Project} {e : SourceFile × Option Text}

theorem dump_eq_none_iff (h : e ∈ p.scenes.zip p.dumps) : e.2 = none ↔ p.Crowded e.1.path := by
  obtain ⟨i, hi⟩ := List.getElem?_of_mem h
  obtain ⟨hscene, hdump⟩ := List.getElem?_zip_eq_some.mp hi
  have hpath : ((p.scenes.map SourceFile.path).map Utf8.encode)[i]? =
      some (Utf8.encode e.1.path) := by
    rw [List.getElem?_map, List.getElem?_map, hscene]
    rfl
  obtain ⟨name, hname⟩ := exists_fileName (List.mem_of_getElem? hscene)
  obtain ⟨dump, htarget⟩ : ∃ dump, DumpPlan.target? (Utf8.encode p.output)
      p.config.report.dumpSuffix (Utf8.encode e.1.path) = some dump := by
    simp [DumpPlan.target?, hname]
  have hlt : ∀ other, other ∈ p.scenes.take i ↔
      other ∈ p.scenes ∧ Path.compare other.path e.1.path = .lt :=
    fun other => Finder.mem_take_iff (Finder.pairwise_findIn ..) hscene
  calc e.2 = none ↔ p.dumps[i]? = some none := by rw [hdump, Option.some.injEq]
    _ ↔ (DumpPlan.plan (Utf8.encode p.output) p.config.report.dumpSuffix
          ((p.scenes.map SourceFile.path).map Utf8.encode))[i]? = some none := by
        simp [dumps, DumpPlan.ofTexts]
    _ ↔ p.Crowded e.1.path := by
        rw [DumpPlan.getElem?_plan_eq_none_iff hpath htarget, ← List.map_take, ← List.map_take,
          Crowded]
        simp only [List.mem_map, exists_exists_and_eq_and]
        simp only [hlt, and_assoc]

end Project

theorem FileTree.isFile_of_write {tree tree' : FileTree} {path other : Text} {content : Bytes}
    (h : tree.write path content = .ok tree')
    (hfile : other = path ∨ tree.isFile other = true) : tree'.isFile other = true := by
  have hframe : Frame (fun loc => tree.locate path = .ok loc) tree tree' :=
    (Frame.refl _ tree).write h fun _ hloc => hloc
  obtain ⟨dir, name, hloc, -, -, -, rfl⟩ := write_eq_ok h
  have hput : ∀ loc, (tree.put (dir ++ [name]) (.file content)).entryAt loc =
      if loc = dir ++ [name] then some (.file content) else tree.entryAt loc :=
    entryAt_put (by simp) (.file content)
  rcases hfile with rfl | hfile
  · exact isFile_iff.mpr ⟨_, content, hframe.locate_iff.mpr hloc, by rw [hput, if_pos rfl]⟩
  · obtain ⟨l, old, hl, hold⟩ := isFile_iff.mp hfile
    refine isFile_iff.mpr ?_
    by_cases heq : l = dir ++ [name]
    · exact ⟨l, content, hframe.locate_iff.mpr hl, by rw [hput, if_pos heq]⟩
    · exact ⟨l, old, hframe.locate_iff.mpr hl, by rw [hput, if_neg heq, hold]⟩

/-- A summary is about the scene of its job and names its dump, which is a file. -/
def Job.Kept (tree : FileTree) (job : Job) : Prop :=
  ∀ summary, job.phase = .done (.ok summary) →
    summary.scene = job.scene.path ∧ summary.dump = job.dump ∧
      ∀ dump, job.dump = some dump → tree.isFile dump = true

theorem DumpedTo.isFile {dump : Option Text} {before after : FileTree} {path : Text}
    (h : DumpedTo dump before after) (hfile : before.isFile path = true) :
    after.isFile path = true := by
  rcases h with rfl | ⟨_, _, _, hwrite⟩
  · exact hfile
  · exact FileTree.isFile_of_write hwrite (.inr hfile)

theorem Job.Step.kept {config : Config} {registry : Registry} {state state' : RunState}
    {job job' : Job} (h : Step config registry (state, job) (state', job')) :
    job'.Kept state'.tree := by
  cases h with
  | unreadable | read | advance | notDumped => exact nofun
  | dumped _ hwrite =>
    rintro _ ⟨rfl⟩
    refine ⟨rfl, rfl, ?_⟩
    rintro path rfl
    rcases Audit.writeDump_eq_ok hwrite with ⟨hnone, -⟩ | ⟨path', hpath, hwrite⟩
    · exact nomatch hnone
    · obtain rfl := Option.some.inj hpath
      exact FileTree.isFile_of_write hwrite (.inl rfl)

/-- What holds of the dumps in every state of an audit. -/
structure DumpsFiled (p : Project) (s : Schedule) : Prop where
  jobs : s.jobs.map (fun job => (job.scene, job.dump)) = p.scenes.zip p.dumps
  kept : ∀ job ∈ s.jobs, job.Kept s.state.tree

/-- The dumps that the summaries of a report name. -/
def AuditReport.dumps (report : AuditReport) : List Text :=
  report.scenes.filterMap SceneSummary.dump

namespace DumpsFiled

variable {p : Project} {s s' : Schedule}

theorem start (p : Project) : DumpsFiled p (.start p) where
  jobs := Schedule.jobs_start p
  kept := by
    intro job hjob
    obtain ⟨e, -, rfl⟩ := List.mem_map.mp hjob
    exact nofun

theorem step (h : DumpsFiled p s) (hstep : Schedule.Step p.config s s') : DumpsFiled p s' := by
  refine ⟨hstep.jobs_eq.trans h.jobs, ?_⟩
  cases hstep with
  | register => exact h.kept
  | @work registry state state' before after job job' hjob =>
    have hold : ∀ other ∈ before ++ job :: after, other.Kept state'.tree := by
      intro other hother summary hdone
      obtain ⟨hscene, hdump, hfile⟩ := h.kept other hother summary hdone
      exact ⟨hscene, hdump, fun d hd => hjob.dumpedTo.isFile (hfile d hd)⟩
    obtain ⟨hbefore, hafter⟩ := List.forall_mem_append.mp hold
    refine List.forall_mem_append.mpr ⟨hbefore, List.forall_mem_cons.mpr ⟨hjob.kept, ?_⟩⟩
    exact (List.forall_mem_cons.mp hafter).2

theorem of_reaches (h : Schedule.Reaches p.config (.start p) s) : DumpsFiled p s := by
  induction h with
  | refl => exact start p
  | tail _ hstep ih => exact ih.step hstep

theorem sublist (h : DumpsFiled p s) :
    ((s.report p).scenes.map fun summary => (summary.scene, summary.dump)).Sublist
      ((p.scenes.zip p.dumps).map fun e => (e.1.path, e.2)) := by
  rw [← h.jobs, List.map_map]
  have hkept := h.kept
  change (((s.jobs.filterMap Job.outcome?).filterMap Audit.summary?).map _).Sublist _
  generalize s.jobs = jobs at hkept ⊢
  induction jobs with
  | nil => exact .slnil
  | cons job jobs ih =>
    obtain ⟨hjob, hrest⟩ := List.forall_mem_cons.mp hkept
    obtain ⟨scene, dump, phase⟩ := job
    rcases phase with _ | _ | (_ | summary)
    · exact (ih hrest).cons _
    · exact (ih hrest).cons _
    · exact (ih hrest).cons _
    · obtain ⟨hscene, hdump, -⟩ := hjob summary rfl
      have hpair : (summary.scene, summary.dump) = (scene.path, dump) := Prod.ext hscene hdump
      simpa [Job.outcome?, Audit.summary?, hpair] using ih hrest

theorem isFile (h : DumpsFiled p s) {d : Text} (hd : d ∈ (s.report p).dumps) :
    s.state.tree.isFile d = true := by
  obtain ⟨summary, hsummary, hdump⟩ := List.mem_filterMap.mp hd
  obtain ⟨scene, dump, hjob⟩ := Schedule.exists_done hsummary
  obtain ⟨-, hsame, hfile⟩ := h.kept _ hjob summary rfl
  exact hfile d (hsame.symm.trans hdump)

theorem distinct (h : DumpsFiled p s) :
    (s.report p).dumps.Pairwise fun d d' => Path.same d d' = false := by
  have hplan : (p.scenes.zip p.dumps).map (fun e => e.2) = p.dumps :=
    List.map_snd_zip p.length_dumps.le
  have hsub : ((s.report p).scenes.map SceneSummary.dump).Sublist p.dumps := by
    simpa only [List.map_map, Function.comp_def, hplan] using h.sublist.map Prod.snd
  have hapart := (DumpPlan.distinct_ofTexts ..).sublist hsub
  rw [List.pairwise_map] at hapart
  exact hapart.filterMap _ fun a b h d hd d' hd' => h d hd d' hd'

theorem dump_eq_none_iff (h : DumpsFiled p s) {summary : SceneSummary}
    (hsummary : summary ∈ (s.report p).scenes) :
    summary.dump = none ↔ p.Crowded summary.scene := by
  have hmem := h.sublist.subset (List.mem_map_of_mem hsummary)
  obtain ⟨e, he, heq⟩ := List.mem_map.mp hmem
  obtain ⟨hscene, hdump⟩ := Prod.mk.inj heq
  rw [← hscene, ← hdump]
  exact Project.dump_eq_none_iff he

end DumpsFiled

/-- How many dumps a report on a project names, and which of its scenes are without one. -/
structure AuditReport.CountsDumps (p : Project) (report : AuditReport) : Prop where
  /-- No two dumps have one path, however it is spelled. -/
  distinct : report.dumps.Pairwise fun d d' => Path.same d d' = false
  dumpless : ∀ s ∈ report.scenes, s.dump = none ↔ p.Crowded s.scene
  total : report.scenesProcessed =
    report.dumps.length + report.scenes.countP fun s => s.dump.isNone
  full_iff : report.scenesProcessed = report.dumps.length ↔
    ∀ s ∈ report.scenes, ¬ p.Crowded s.scene

theorem DumpsFiled.countsDumps {p : Project} {s : Schedule} (h : DumpsFiled p s) :
    (s.report p).CountsDumps p := by
  have htotal : (s.report p).scenesProcessed = (s.report p).dumps.length +
      (s.report p).scenes.countP fun s => s.dump.isNone := by
    rw [AuditReport.scenesProcessed, AuditReport.dumps, List.length_filterMap_eq_countP,
      List.length_eq_countP_add_countP fun s : SceneSummary => s.dump.isSome]
    refine congrArg _ (List.countP_congr fun s _ => ?_)
    simp
  refine ⟨h.distinct, fun _ => h.dump_eq_none_iff, htotal, ?_⟩
  calc (s.report p).scenesProcessed = (s.report p).dumps.length
      ↔ (s.report p).scenes.countP (fun s => s.dump.isNone) = 0 := by omega
    _ ↔ ∀ summary ∈ (s.report p).scenes, summary.dump ≠ none := by
        simp [List.countP_eq_zero]
    _ ↔ ∀ summary ∈ (s.report p).scenes, ¬ p.Crowded summary.scene :=
        forall₂_congr fun _ hsummary => not_congr (h.dump_eq_none_iff hsummary)

end SceneAudit
