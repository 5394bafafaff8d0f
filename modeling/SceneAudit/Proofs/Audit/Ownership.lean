import SceneAudit.Proofs.Audit.Isolation
import SceneAudit.Proofs.Discovery.Found

/-! # Who owns a dump

Of the scenes whose file names are read as one text the first gets the dump, and no two dumps are
planned for one path. So whatever the schedule, a dump that is named in a summary holds in the end
what its scene wrote there, and a scene without a dump writes nothing.
-/

namespace SceneAudit

open Scene FileTree

namespace DumpPlan

variable {output scene dump : OsPath} {suffix : Text} {scenes : List OsPath} {i : Nat}

/-- A scene gets a dump, named after what is read off its file name, unless the same is read off the
file name of an earlier scene. -/
theorem getElem?_plan (hsuffix : '/' ∉ suffix) (hscene : scenes[i]? = some scene) :
    (plan output suffix scenes)[i]? = some (some dump) ↔
      ∃ name, OsPath.fileName? scene = some name ∧ dump = dumpOf output suffix name ∧
        ∀ earlier ∈ scenes.take i, ∀ other, OsPath.fileName? earlier = some other →
          Utf8.decodeLossy other ≠ Utf8.decodeLossy name := by
  have htarget : ∀ s d, target? output suffix s = some d ↔
      ∃ name, OsPath.fileName? s = some name ∧ dumpOf output suffix name = d :=
    fun s d => Option.map_eq_some_iff
  refine (getElem?_assign OsPath.same_trans hscene).trans ?_
  rw [htarget]
  constructor
  · rintro ⟨⟨name, hname, rfl⟩, -, hfree⟩
    refine ⟨name, hname, rfl, fun earlier hearlier other hother hread => ?_⟩
    have hsame : OsPath.same (dumpOf output suffix name) (dumpOf output suffix other) = true :=
      (same_dumpOf_iff (OsPath.isName_of_fileName? hname)
        (OsPath.isName_of_fileName? hother) hsuffix).mpr hread.symm
    rw [hfree earlier hearlier _ ((htarget ..).mpr ⟨other, hother, rfl⟩)] at hsame
    cases hsame
  · rintro ⟨name, hname, rfl, hfirst⟩
    refine ⟨⟨name, hname, rfl⟩, List.forall_mem_nil _, fun earlier hearlier d hd => ?_⟩
    obtain ⟨other, hother, rfl⟩ := (htarget ..).mp hd
    refine Bool.eq_false_iff.mpr fun hsame => hfirst earlier hearlier other hother ?_
    exact ((same_dumpOf_iff (OsPath.isName_of_fileName? hname)
      (OsPath.isName_of_fileName? hother) hsuffix).mp hsame).symm

/-- A plan has one entry for each scene, and no path is planned for two dumps. The first scene with
a file name that is read as one text gets a dump, named after this text. Where all file names are
UTF-8, it is the first scene with one file name. -/
structure Exact (output : OsPath) (suffix : Text) (scenes : List OsPath) : Prop where
  length : (plan output suffix scenes).length = scenes.length
  dumped : ∀ {i : Nat} {scene : OsPath}, scenes[i]? = some scene → ∀ dump,
    (plan output suffix scenes)[i]? = some (some dump) ↔
      ∃ name, OsPath.fileName? scene = some name ∧
        dump = OsPath.join output (Utf8.encode (Utf8.decodeLossy name ++ '.' :: suffix)) ∧
        ∀ earlier ∈ scenes.take i, ∀ other, OsPath.fileName? earlier = some other →
          Utf8.decodeLossy other ≠ Utf8.decodeLossy name
  first : (∀ scene ∈ scenes, ∃ name, OsPath.fileName? scene = some (Utf8.encode name)) →
    ∀ {i : Nat} {scene : OsPath}, scenes[i]? = some scene →
      ((∃ dump, (plan output suffix scenes)[i]? = some (some dump)) ↔
        ∀ earlier ∈ scenes.take i, OsPath.fileName? earlier ≠ OsPath.fileName? scene)
  distinct : (plan output suffix scenes).Pairwise fun a b =>
    ∀ d, a = some d → ∀ d', b = some d' → OsPath.same d d' = false

theorem exact (output : OsPath) (hsuffix : '/' ∉ suffix) (scenes : List OsPath) :
    Exact output suffix scenes where
  length := length_assign ..
  dumped hscene _ := getElem?_plan hsuffix hscene
  first hnames i scene hscene := by
    obtain ⟨name, hname⟩ := hnames scene (List.mem_of_getElem? hscene)
    have hread : ∀ earlier ∈ scenes.take i,
        (∀ other, OsPath.fileName? earlier = some other →
          Utf8.decodeLossy other ≠ Utf8.decodeLossy (Utf8.encode name)) ↔
        OsPath.fileName? earlier ≠ OsPath.fileName? scene := by
      intro earlier hearlier
      obtain ⟨other, hother⟩ := hnames earlier (List.mem_of_mem_take hearlier)
      simp [hother, hname, Utf8.encode_injective.eq_iff]
    rw [hname] at hread ⊢
    simp only [getElem?_plan hsuffix hscene, hname, Option.some.injEq, exists_eq_left',
      exists_eq_left]
    exact forall₂_congr hread
  distinct := distinct_assign OsPath.same_symm OsPath.same_trans

end DumpPlan

namespace Schedule

variable {p : Project} {s s' : Schedule} {scene : SourceFile} {dump : Option Text} {text : Text}
  {summary : SceneSummary}

/-- At some moment of an audit that has come so far, a scene held a text. -/
def Held (p : Project) (s : Schedule) (scene : SourceFile) (text : Text) : Prop :=
  ∃ moment, Reaches p.config (start p) moment ∧ Reaches p.config moment s ∧
    moment.state.tree.readText scene.path = .ok text

/-- A summary tells of the hierarchy of a text that the scene held, and that hierarchy is what its
dump holds, byte by byte. -/
structure Owns (p : Project) (s : Schedule) (scene : SourceFile) (dump : Option Text) (text : Text)
    (summary : SceneSummary) : Prop where
  held : Held p s scene text
  summary : summary = Audit.summary scene dump (Scene.parse p.config.usage.reservedFields text)
    (Hierarchy.ofScene (Scene.parse p.config.usage.reservedFields text))
  dumped : ∀ path, dump = some path → s.state.tree.read path =
    .ok (Utf8.encode
      (Hierarchy.ofScene (Scene.parse p.config.usage.reservedFields text)).render)

theorem Held.tail (h : Held p s scene text) (hstep : Step p.config s s') :
    Held p s' scene text := by
  obtain ⟨moment, hstart, hmoment, hread⟩ := h
  exact ⟨moment, hstart, hmoment.tail hstep, hread⟩

theorem Held.readText_eq (hp : p.Separate) (hscene : scene ∈ p.scenes)
    (h : Held p s scene text) : p.tree.readText scene.path = .ok text := by
  obtain ⟨moment, hstart, -, hread⟩ := h
  rw [← hp.readText_eq (Undisturbed.of_reaches hp hstart).frame hscene, hread]

end Schedule

/-- What the work on a scene leaves, as far as it has come. -/
def Phase.Owned (p : Project) (s : Schedule) (scene : SourceFile) (dump : Option Text) :
    Phase → Prop
  | .waiting | .done (.error _) => True
  | .resolving parsed _ =>
    ∃ text, s.Held p scene text ∧ Scene.parse p.config.usage.reservedFields text = parsed
  | .done (.ok summary) => ∃ text, s.Owns p scene dump text summary

theorem Phase.Owned.mono {p : Project} {s s' : Schedule} {scene : SourceFile}
    {dump : Option Text} {phase : Phase} (h : phase.Owned p s scene dump)
    (hstep : Schedule.Step p.config s s')
    (hread : ∀ path, dump = some path → s'.state.tree.read path = s.state.tree.read path) :
    phase.Owned p s' scene dump := by
  match phase, h with
  | .waiting, _ | .done (.error _), _ => trivial
  | .resolving _ _, ⟨text, hheld, hparsed⟩ => exact ⟨text, hheld.tail hstep, hparsed⟩
  | .done (.ok _), ⟨text, howns⟩ =>
    refine ⟨text, howns.held.tail hstep, howns.summary, fun path hpath => ?_⟩
    rw [hread path hpath, howns.dumped path hpath]

theorem Job.Step.owned {p : Project} {s s' : Schedule} {registry : Registry}
    {state state' : RunState} {job job' : Job}
    (h : Job.Step p.config registry (state, job) (state', job'))
    (howned : job.phase.Owned p s job.scene job.dump)
    (hreached : Schedule.Reaches p.config (.start p) s) (hstep : Schedule.Step p.config s s')
    (hstate : s.state = state) (hstate' : s'.state = state') :
    job'.phase.Owned p s' job'.scene job'.dump := by
  cases h with
  | unreadable | notDumped => trivial
  | read hread hparsed =>
    exact ⟨_, ⟨s, hreached, .single hstep, hstate ▸ hread⟩, hparsed⟩
  | advance =>
    obtain ⟨text, hheld, hparsed⟩ := howned
    exact ⟨text, hheld.tail hstep, hparsed⟩
  | dumped _ hwrite =>
    obtain ⟨text, hheld, rfl⟩ := howned
    refine ⟨text, hheld.tail hstep, rfl, fun path hpath => ?_⟩
    rw [hstate']
    rcases Audit.writeDump_eq_ok hwrite with ⟨hnone, -⟩ | ⟨path', hpath', hwrite⟩
    · rw [hnone] at hpath
      cases hpath
    · obtain rfl := Option.some.inj (hpath'.symm.trans hpath)
      exact read_of_write hwrite

/-- What holds in every state of an audit. -/
structure DumpsKept (p : Project) (s : Schedule) : Prop where
  reached : Schedule.Reaches p.config (.start p) s
  frame : Frame p.Written p.tree s.state.tree
  jobs : s.jobs.map (fun job => (job.scene, job.dump)) = p.scenes.zip p.dumps
  owned : ∀ job ∈ s.jobs, job.phase.Owned p s job.scene job.dump

namespace DumpsKept

variable {p : Project} {s s' : Schedule}

theorem start (p : Project) : DumpsKept p (.start p) where
  reached := .refl
  frame := Frame.refl _ _
  jobs := Schedule.jobs_start p
  owned := by
    intro job hjob
    obtain ⟨e, -, rfl⟩ := List.mem_map.mp hjob
    trivial

theorem step (hsuffix : ¬ DumpPlan.Climbs p.config.report.dumpSuffix) (h : DumpsKept p s)
    (hstep : Schedule.Step p.config s s') : DumpsKept p s' := by
  have hreached := h.reached.tail hstep
  have hsame := hstep.jobs_eq.trans h.jobs
  cases hstep with
  | register =>
    exact ⟨hreached, h.frame, h.jobs, fun job hjob =>
      (h.owned job hjob).mono .register fun _ _ => rfl⟩
  | @work registry state state' before after job job' hjob =>
    have hmem : (job.scene, job.dump) ∈ p.scenes.zip p.dumps := by
      rw [← h.jobs]
      simp
    have hframe := hjob.dumpedTo.frame (List.of_mem_zip hmem).2 h.frame
    have howned := hjob.owned (h.owned job (by simp)) h.reached (.work hjob) rfl rfl
    have hkept : ∀ other ∈ before ++ after,
        other.phase.Owned p ⟨[], registry, state', before ++ job' :: after⟩ other.scene
          other.dump := by
      intro other hother
      have hmem : other ∈ before ++ job :: after := by
        rw [List.mem_append, List.mem_cons]
        exact (List.mem_append.mp hother).imp_right Or.inr
      refine (h.owned other hmem).mono (.work hjob) fun path hpath => ?_
      have hagree := Project.agreeOn_others hsuffix h.jobs h.frame.current hjob.dumpedTo hother
      have hentry := Project.entryOf_dump hpath hframe.current hagree
      rw [FileTree.read, FileTree.read, hentry]
    refine ⟨hreached, hframe, hsame, ?_⟩
    obtain ⟨hbefore, hafter⟩ := List.forall_mem_append.mp hkept
    exact List.forall_mem_append.mpr ⟨hbefore, List.forall_mem_cons.mpr ⟨howned, hafter⟩⟩

theorem of_reaches (hsuffix : ¬ DumpPlan.Climbs p.config.report.dumpSuffix)
    (h : Schedule.Reaches p.config (.start p) s) : DumpsKept p s := by
  induction h with
  | refl => exact start p
  | tail _ hstep ih => exact ih.step hsuffix hstep

theorem exists_owns (h : DumpsKept p s) {summary : SceneSummary}
    (hsummary : summary ∈ (s.report p).scenes) :
    ∃ scene dump text, (scene, dump) ∈ p.scenes.zip p.dumps ∧ s.Owns p scene dump text summary := by
  obtain ⟨scene, dump, hjob⟩ := Schedule.exists_done hsummary
  obtain ⟨text, howns⟩ := h.owned _ hjob
  have hmem : (scene, dump) ∈ p.scenes.zip p.dumps := by
    rw [← h.jobs]
    exact List.mem_map.mpr ⟨_, hjob, rfl⟩
  exact ⟨scene, dump, text, hmem, howns⟩

end DumpsKept

theorem DumpPlan.not_climbs {suffix : Text} (h : '/' ∉ suffix) : ¬ Climbs suffix := by
  rw [Climbs, Text.splitOn_of_not_mem h]
  exact List.not_mem_nil

theorem Project.exists_fileName {p : Project} {scene : SourceFile} (h : scene ∈ p.scenes) :
    ∃ name, Path.fileName? scene.path = some name := by
  obtain ⟨-, start, -, hscan⟩ := Finder.mem_scan_of_mem_findIn h
  have htype := Finder.ofPath?_of_sourceFile? (Finder.mem_scan_iff.mp hscan).2
  rw [FileType.ofPath?, Path.extension?] at htype
  cases hname : Path.fileName? scene.path with
  | none => simp [hname] at htype
  | some name => exact ⟨name, rfl⟩

theorem Project.exists_dump_iff {p : Project} (hsuffix : '/' ∉ p.config.report.dumpSuffix)
    {i : Nat} {scene : SourceFile} (hscene : p.scenes[i]? = some scene) :
    (∃ dump, p.dumps[i]? = some (some dump)) ↔
      ∀ earlier ∈ p.scenes.take i, Path.fileName? earlier.path ≠ Path.fileName? scene.path := by
  let paths := (p.scenes.map SourceFile.path).map Utf8.encode
  have hpath : paths[i]? = some (Utf8.encode scene.path) := by
    rw [List.getElem?_map, List.getElem?_map, hscene]
    rfl
  have hnames : ∀ path ∈ paths, ∃ name, OsPath.fileName? path = some (Utf8.encode name) := by
    simp only [paths, List.map_map, List.forall_mem_map, Function.comp, OsPath.fileName?_encode]
    intro scene hscene
    obtain ⟨name, hname⟩ := exists_fileName hscene
    exact ⟨name, by rw [hname]; rfl⟩
  have hplan : (∃ dump, p.dumps[i]? = some (some dump)) ↔ ∃ dump,
      (DumpPlan.plan (Utf8.encode p.output) p.config.report.dumpSuffix paths)[i]? =
        some (some dump) := by
    simp [dumps, DumpPlan.ofTexts, paths]
  rw [hplan, (DumpPlan.exact _ hsuffix paths).first hnames hpath]
  simp only [paths, ← List.map_take, List.forall_mem_map, OsPath.fileName?_encode, ne_eq,
    (Option.map_injective Utf8.encode_injective).eq_iff]

/-- With a suffix that is one piece of a path, any plan gives the first scene with a file name its
own dump. Whatever the schedule of an audit, every summary then tells of the hierarchy of a text
that its scene held, and the dump it names holds that hierarchy in the end; a scene without a dump
writes nothing, and nothing is written elsewhere. The text is the one that the scene held from the
start, unless dumps are written over scenes. -/
theorem dumps_owned {suffix : Text} (hsuffix : '/' ∉ suffix) :
    (∀ output scenes, DumpPlan.Exact output suffix scenes) ∧
      ∀ p : Project, p.config.report.dumpSuffix = suffix →
        (∀ {i : Nat} {scene}, p.scenes[i]? = some scene →
          ((∃ dump, p.dumps[i]? = some (some dump)) ↔
            ∀ earlier ∈ p.scenes.take i,
              Path.fileName? earlier.path ≠ Path.fileName? scene.path)) ∧
        (∀ registry state state' job job', job.dump = none →
          Job.Step p.config registry (state, job) (state', job') → state'.tree = state.tree) ∧
        ∀ final, Schedule.EndOf p final → Frame p.Written p.tree final.state.tree ∧
          ∀ summary ∈ (final.report p).scenes, ∃ scene dump text,
            (scene, dump) ∈ p.scenes.zip p.dumps ∧ final.Owns p scene dump text summary ∧
              (p.tree.WellFormed → p.ScenesApart → p.tree.readText scene.path = .ok text) := by
  refine ⟨fun output => DumpPlan.exact output hsuffix, ?_⟩
  rintro p rfl
  refine ⟨fun hscene => p.exists_dump_iff hsuffix hscene, ?_, ?_⟩
  · intro registry state state' job job' hnone hstep
    rcases hstep.dumpedTo with htree | ⟨path, content, hsome, -⟩
    · exact htree
    · rw [hnone] at hsome
      cases hsome
  · intro final hend
    have hclimbs := DumpPlan.not_climbs hsuffix
    have hkept := DumpsKept.of_reaches hclimbs hend.reaches
    refine ⟨hkept.frame, fun summary hsummary => ?_⟩
    obtain ⟨scene, dump, text, hmem, howns⟩ := hkept.exists_owns hsummary
    refine ⟨scene, dump, text, hmem, howns, fun hwell hscenes => ?_⟩
    exact howns.held.readText_eq ⟨hwell, hscenes, hclimbs⟩ (List.of_mem_zip hmem).1

/-- Of two scenes with one file name the first has the dump, which holds its hierarchy and not the
empty one of the second. -/
theorem dumps_owned_of_two_scenes :
    let scene := Utf8.encode ("--- &1\nGameObject:\n  m_Name: x\n" ++
      "--- &2\nTransform:\n  m_GameObject: {fileID: 1}\n").toList
    let tree : FileTree := ⟨[([['p']], .directory), ([['p'], ['S']], .directory),
      ([['p'], ['S'], ['T']], .directory), ([['p'], ['S'], "a.unity".toList], .file []),
      ([['p'], ['S'], ['T'], "a.unity".toList], .file scene)], []⟩
    let made := tree.put [['o']] .directory
    let p := Project.mk made { Config.default with sceneDirs := [['S']] } "/p".toList "/o".toList
    '/' ∉ p.config.report.dumpSuffix ∧
      p.dumps = [some "/o/a.unity.dump".toList, none] ∧
      DumpPlan.Exact (Utf8.encode p.output) p.config.report.dumpSuffix
        ((p.scenes.map SourceFile.path).map Utf8.encode) ∧
      ∃ final, Schedule.EndOf p final ∧ Frame p.Written p.tree final.state.tree ∧
        (final.report p).scenes.map (fun s => (s.scene, s.dump)) =
          [("/p/S/T/a.unity".toList, some "/o/a.unity.dump".toList),
            ("/p/S/a.unity".toList, none)] ∧
        final.state.tree.readText "/o/a.unity.dump".toList = .ok "x\n".toList ∧
        ∀ summary ∈ (final.report p).scenes, ∃ scene dump text,
          (scene, dump) ∈ p.scenes.zip p.dumps ∧ final.Owns p scene dump text summary := by
  simp -zeta only [Utf8.encode_toList]
  intro scene tree made p
  have hsuffix : '/' ∉ p.config.report.dumpSuffix := by decide
  have hdumps : p.dumps = [some "/o/a.unity.dump".toList, none] := by decide +kernel
  have hmade : tree.makeDirectories p.output = .ok made := rfl
  have hvalues : (Audit.run tree p.config p.root p.output).toOption.map (fun r =>
      (r.2.scenes.map (fun s => (s.scene, s.dump)), r.1.readText "/o/a.unity.dump".toList)) =
      some ([("/p/S/T/a.unity".toList, some "/o/a.unity.dump".toList),
        ("/p/S/a.unity".toList, none)], .ok "x\n".toList) := by decide +kernel
  obtain ⟨after, report, hrun, heq⟩ := Audit.exists_run_of_map hvalues
  obtain ⟨hscenes, htext⟩ := Prod.mk.inj heq
  obtain ⟨final, hend, rfl, rfl⟩ := Audit.exists_endOf_of_run hrun hmade
  obtain ⟨hplan, howned⟩ := dumps_owned hsuffix
  obtain ⟨hframe, howns⟩ := (howned p rfl).2.2 final hend
  refine ⟨hsuffix, hdumps, hplan _ _, final, hend, hframe, hscenes, htext, ?_⟩
  intro summary hsummary
  obtain ⟨scene, dump, text, hmem, hown, -⟩ := howns summary hsummary
  exact ⟨scene, dump, text, hmem, hown⟩

/-- Two scenes with different names that are read as one text: the second has no dump. And a dump
that is written over the next scene: what this scene then holds has no hierarchy, so that its dump
is empty. -/
theorem not_dumps_owned_of_broken_names_or_overwritten_scene :
    let named := fun byte : UInt8 =>
      Utf8.encode "/p/S/a".toList ++ byte :: Utf8.encode ".unity".toList
    let scene := fun name : Text => "--- &1\nGameObject:\n  m_Name: ".toList ++ name ++
      "\n--- &2\nTransform:\n  m_GameObject: {fileID: 1}\n".toList
    let tree : FileTree := ⟨[([['p']], .directory), ([['p'], ['S']], .directory),
      ([['p'], ['S'], "a.unity".toList], .file (Utf8.encode (scene ['x']))),
      ([['p'], ['S'], "a.unity.unity".toList], .file (Utf8.encode (scene ['y'])))], []⟩
    let report := { Config.default.report with dumpSuffix := "unity".toList }
    let config := { Config.default with sceneDirs := [['S']], report := report }
    let p := Project.mk tree config "/p".toList "/p/S".toList
    let hierarchy := Hierarchy.ofScene
      (Scene.parse config.usage.reservedFields (scene ['y']))
    (OsPath.fileName? (named 0xFE) ≠ OsPath.fileName? (named 0xFF) ∧
      DumpPlan.plan (Utf8.encode "/o".toList) "dump".toList [named 0xFE, named 0xFF] =
        [some (Utf8.encode "/o/a\uFFFD.unity.dump".toList), none]) ∧
      '/' ∉ p.config.report.dumpSuffix ∧
      p.tree.readText "/p/S/a.unity.unity".toList = .ok (scene ['y']) ∧
      hierarchy.render = "y\n".toList ∧
      ∃ final, Schedule.EndOf p final ∧
        (final.report p).scenes.map (fun s => (s.scene, s.dump)) =
          [("/p/S/a.unity".toList, some "/p/S/a.unity.unity".toList),
            ("/p/S/a.unity.unity".toList, some "/p/S/a.unity.unity.unity".toList)] ∧
        final.state.tree.readText "/p/S/a.unity.unity.unity".toList = .ok [] := by
  repeat rw [String.toList_ofList]
  intro named scene tree report config p hierarchy
  have hmade : tree.makeDirectories p.output = .ok tree := rfl
  have hvalues : (Audit.run tree p.config p.root p.output).toOption.map (fun r =>
      (r.2.scenes.map (fun s => (s.scene, s.dump)),
        r.1.readText "/p/S/a.unity.unity.unity".toList)) =
      some ([("/p/S/a.unity".toList, some "/p/S/a.unity.unity".toList),
        ("/p/S/a.unity.unity".toList, some "/p/S/a.unity.unity.unity".toList)], .ok []) := by
    decide +kernel
  obtain ⟨after, audited, hrun, heq⟩ := Audit.exists_run_of_map hvalues
  obtain ⟨hscenes, htext⟩ := Prod.mk.inj heq
  obtain ⟨final, hend, rfl, rfl⟩ := Audit.exists_endOf_of_run hrun hmade
  obtain ⟨hplan, hfound⟩ : (OsPath.fileName? (named 0xFE) ≠ OsPath.fileName? (named 0xFF) ∧
      DumpPlan.plan (Utf8.encode "/o".toList) "dump".toList [named 0xFE, named 0xFF] =
        [some (Utf8.encode "/o/a\uFFFD.unity.dump".toList), none]) ∧
      p.tree.readText "/p/S/a.unity.unity".toList = .ok (scene ['y']) ∧
      hierarchy.render = "y\n".toList := by decide +kernel
  exact ⟨hplan, by decide, hfound.1, hfound.2, final, hend, hscenes, htext⟩

end SceneAudit
