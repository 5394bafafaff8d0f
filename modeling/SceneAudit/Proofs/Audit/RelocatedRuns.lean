import SceneAudit.Proofs.Audit.Project
import SceneAudit.Proofs.Audit.Relocation

/-! # Sequential audits of one project at two places

The same scripts, scenes and dumps are found and planned at two places. So an audit that does one
thing after another reports the same at both, but for the beginnings of the paths, and leaves the
same files.
-/

namespace SceneAudit

open FileTree

section Plan

variable {suffix r s : Text}

theorem DumpPlan.IsName.components_eq (hr : IsName suffix r) :
    Path.components r = Path.bodyComponents r := by
  obtain ⟨name, first, hnil, -, -, -, hpieces⟩ := hr.exists_pieces
  have hhere : name ++ '.' :: first ≠ ['.'] := by
    intro heq
    have hlength := congrArg List.length heq
    have hpos := List.length_pos_iff.mpr hnil
    simp at hlength
    omega
  have hrelative := hr.relative
  unfold Path.components
  revert hpieces hrelative
  fun_cases Path.split r with
  | case1 body =>
    intro _ hrelative
    simp [Path.isAbsolute] at hrelative
  | case2 => exact fun hpieces _ => absurd (List.cons.inj hpieces).1.symm hhere
  | case3 body =>
    intro hpieces
    rw [Text.splitOn_cons (by decide) (Text.splitOn_cons_sep body)] at hpieces
    exact absurd (List.cons.inj hpieces).1.symm hhere
  | case4 => exact fun _ _ => rfl

theorem DumpPlan.IsName.same_join (hr : IsName suffix r) (hs : IsName suffix s) (output : Text) :
    Path.same (Path.join output r) (Path.join output s) =
      (Path.bodyComponents r == Path.bodyComponents s) := by
  by_cases houtput : output = []
  · have hjoin : ∀ {r}, IsName suffix r → Path.join output r = r := by
      intro r hr
      simp [Path.join_eq hr.relative, houtput]
    rw [hjoin hr, hjoin hs, Path.same, hr.components_eq, hs.components_eq]
  · exact Path.same_join houtput hr.relative hs.relative

theorem DumpPlan.assign_moved {root output : Placement} (hroot : root.path ≠ [])
    (hroot' : root.path' ≠ []) (hsuffix : ¬ Climbs suffix) {scenes scenes' rs : List Text}
    (h : List.Forall₂ root.Moved scenes scenes') (hrs : ∀ r ∈ rs, IsName suffix r) :
    List.Forall₂ (Option.Rel output.Moved)
      (assign (askedBy? output.path suffix) Path.same (rs.map (Path.join output.path)) scenes)
      (assign (askedBy? output.path' suffix) Path.same (rs.map (Path.join output.path'))
        scenes') := by
  induction h generalizing rs with
  | nil => exact .nil
  | @cons scene scene' scenes scenes' hscene _ ih =>
    have hname := hscene.fileName? hroot hroot'
    unfold assign askedBy?
    rw [hname]
    cases hfile : Path.fileName? scene' with
    | none => exact .cons .none (ih hrs)
    | some name =>
      have hr : IsName suffix (name ++ '.' :: suffix) := isName_of_fileName? hfile
      have htaken : ∀ output : Text,
          (rs.map (Path.join output)).any (Path.same (Path.join output (name ++ '.' :: suffix))) =
            rs.any fun s =>
              Path.bodyComponents (name ++ '.' :: suffix) == Path.bodyComponents s := by
        intro output
        rw [List.any_map, Bool.eq_iff_iff, List.any_eq_true, List.any_eq_true]
        refine exists_congr fun s => and_congr_right fun hs => ?_
        rw [Function.comp, hr.same_join (hrs s hs)]
      simp only [Option.map_some, htaken]
      split
      · exact .cons .none (ih hrs)
      · have hmoved : output.Moved (Path.join output.path (name ++ '.' :: suffix))
            (Path.join output.path' (name ++ '.' :: suffix)) :=
          ⟨_, hr.inner hsuffix, hr.bodyComponents_ne_nil, rfl, rfl⟩
        refine .cons (.some hmoved) ?_
        have htaken : ∀ r ∈ (name ++ '.' :: suffix) :: rs, IsName suffix r :=
          List.forall_mem_cons.mpr ⟨hr, hrs⟩
        exact ih htaken

end Plan

/-- One project at two places. The same stands below both roots and below both output directories,
no ignore file counts from above the roots, and neither scene directories nor suffixes lead back up.
-/
structure Relocated (config : Config) (root output : Placement) (tree tree' : FileTree) : Prop where
  named : root.path ≠ [] ∧ root.path' ≠ []
  sceneDirs : ∀ d ∈ config.sceneDirs, Path.Inner d
  metaSuffix : ¬ DumpPlan.Climbs config.metaSuffix
  dumpSuffix : ¬ DumpPlan.Climbs config.report.dumpSuffix
  wellFormed : tree.WellFormed ∧ tree'.WellFormed
  quiet : tree.QuietAbove root.loc ∧ tree'.QuietAbove root.loc'
  mirrored : Mirrored [root, output] tree tree'

/-- One report at two places: the same rows and counters, and the same results for the same scenes,
but for the beginnings of the paths. -/
structure AuditReport.Moved (root output : Placement) (report report' : AuditReport) : Prop where
  unused : report.unused = report'.unused
  scriptsFound : report.scriptsFound = report'.scriptsFound
  scriptsRegistered : report.scriptsRegistered = report'.scriptsRegistered
  scenesProcessed : report.scenesProcessed = report'.scenesProcessed
  usedCount : report.usedCount = report'.usedCount
  cycleCount : report.cycleCount = report'.cycleCount
  scenes : List.Forall₂ (SceneSummary.Moved root output) report.scenes report'.scenes
  failures : List.Forall₂ (SceneFailure.Moved root output) report.failures report'.failures

theorem AuditReport.cycleCount_moved {root output : Placement} {report report' : AuditReport}
    (h : List.Forall₂ (SceneSummary.Moved root output) report.scenes report'.scenes) :
    report.cycleCount = report'.cycleCount := by
  unfold cycleCount
  generalize report.scenes = scenes, report'.scenes = scenes' at h
  induction h with
  | nil => rfl
  | cons hs _ ih =>
    rw [List.foldr_cons, List.foldr_cons, ih, SceneSummary.cycles, SceneSummary.cycles, hs.issues]

theorem AuditReport.moved_of {root output : Placement} {report report' : AuditReport}
    (hunused : report.unused = report'.unused)
    (hfound : report.scriptsFound = report'.scriptsFound)
    (hregistered : report.scriptsRegistered = report'.scriptsRegistered)
    (hscenes : List.Forall₂ (SceneSummary.Moved root output) report.scenes report'.scenes)
    (hfailures : List.Forall₂ (SceneFailure.Moved root output) report.failures report'.failures) :
    report.Moved root output report' where
  unused := hunused
  scriptsFound := hfound
  scriptsRegistered := hregistered
  scenesProcessed := hscenes.length_eq
  usedCount := by rw [usedCount, usedCount, hunused, hregistered]
  cycleCount := cycleCount_moved hscenes
  scenes := hscenes
  failures := hfailures

namespace Relocated

variable {config : Config} {root output : Placement} {tree tree' : FileTree}
  (h : Relocated config root output tree tree')

include h

theorem exists_scenes : ∃ found : List SourceFile,
    Finder.scenes tree config root.path = found.map (SourceFile.inside root.path) ∧
      Finder.scenes tree' config root.path' = found.map (SourceFile.inside root.path') ∧
      ∀ f ∈ found, Path.Inner f.path ∧ Path.bodyComponents f.path ≠ [] := by
  obtain ⟨found, hfound, hfound', hlisted⟩ := Finder.exists_findIn h.mirrored List.mem_cons_self
    h.wellFormed.1 h.wellFormed.2 h.quiet.1 h.quiet.2 h.named.1 h.named.2 config .scene h.sceneDirs
  refine ⟨found, hfound, hfound', fun f hf => ?_⟩
  obtain ⟨d, -, hd⟩ := hlisted f hf
  exact ⟨hd.inner, hd.ne_nil⟩

theorem exists_scripts : ∃ found : List SourceFile,
    Finder.scripts tree config root.path = found.map (SourceFile.inside root.path) ∧
      Finder.scripts tree' config root.path' = found.map (SourceFile.inside root.path') ∧
      ∀ f ∈ found, Finder.Listed [] f.path := by
  obtain ⟨hleads, hleads'⟩ := h.mirrored.leads root List.mem_cons_self
  have hnil : ∀ d ∈ [([] : Text)], Path.Inner d := by decide
  obtain ⟨found, hfound, hfound', hlisted⟩ := Finder.exists_findIn h.mirrored List.mem_cons_self
    h.wellFormed.1 h.wellFormed.2 h.quiet.1 h.quiet.2 h.named.1 h.named.2 config .script hnil
  rw [Finder.scripts_eq_findIn config h.wellFormed.1 hleads h.named.1,
    Finder.scripts_eq_findIn config h.wellFormed.2 hleads' h.named.2]
  refine ⟨found, hfound, hfound', fun f hf => ?_⟩
  obtain ⟨d, hd, hlist⟩ := hlisted f hf
  rwa [List.mem_singleton.mp hd] at hlist

end Relocated

section Scripts

variable {config : Config} {root output : Placement} {tree tree' : FileTree}
  {registry registry' : Registry}

/-- One script at two places: a name in a directory of the project. -/
def SourceFile.MovedScript (root : Placement) (a b : SourceFile) : Prop :=
  ∃ f : SourceFile, Finder.Listed [] f.path ∧ a = f.inside root.path ∧ b = f.inside root.path'

theorem Relocated.scripts (h : Relocated config root output tree tree') :
    List.Forall₂ (SourceFile.MovedScript root) (Finder.scripts tree config root.path)
      (Finder.scripts tree' config root.path') := by
  obtain ⟨found, hfound, hfound', hlisted⟩ := h.exists_scripts
  rw [hfound, hfound', List.forall₂_map_left_iff, List.forall₂_map_right_iff, List.forall₂_same]
  exact fun f hf => ⟨f, hlisted f hf, rfl, rfl⟩

theorem Audit.registerScript_moved (hsuffix : ¬ DumpPlan.Climbs config.metaSuffix)
    (htree : Mirrored [root, output] tree tree') (h : registry.Moved root registry')
    {a b : SourceFile} (hab : a.MovedScript root b) :
    (registerScript tree config registry a).Moved root
      (registerScript tree' config registry' b) := by
  obtain ⟨f, hf, rfl, rfl⟩ := hab
  have hsidecar := root.moved_sidecar hsuffix hf
  have hcontent : sidecarContent tree config (f.inside root.path) =
      sidecarContent tree' config (f.inside root.path') :=
    congrArg Except.toOption (htree.read List.mem_cons_self hsidecar)
  rw [registerScript, registerScript, hcontent]
  exact h.register ⟨f.path, hf.inner, hf.ne_nil, rfl, rfl⟩ _

theorem Audit.registerAll_moved (hsuffix : ¬ DumpPlan.Climbs config.metaSuffix)
    (htree : Mirrored [root, output] tree tree') {scripts scripts' : List SourceFile}
    (h : List.Forall₂ (SourceFile.MovedScript root) scripts scripts') :
    (registerAll tree config scripts).Moved root (registerAll tree' config scripts') := by
  unfold registerAll
  refine List.rel_foldl ?_ (Registry.Moved.empty root) h
  intro registry registry' hregistry a b hab
  exact registerScript_moved hsuffix htree hregistry hab

end Scripts

section Sequential

variable {config : Config} {root output : Placement} {tree tree' : FileTree}
  (h : Relocated config root output tree tree')

theorem Lookup.zip_related {α β γ δ : Type} {R : α → β → Prop} {S : γ → δ → Prop} {l : List α}
    {l' : List β} {m : List γ} {m' : List δ} (hl : List.Forall₂ R l l')
    (hm : List.Forall₂ S m m') :
    List.Forall₂ (fun e e' => R e.1 e'.1 ∧ S e.2 e'.2) (l.zip m) (l'.zip m') := by
  induction hl generalizing m m' with
  | nil => exact .nil
  | cons hab _ ih =>
    cases hm with
    | nil => exact .nil
    | cons hcd hrest => exact .cons ⟨hab, hcd⟩ (ih hrest)

include h

theorem Relocated.jobs :
    let p : Project := ⟨tree, config, root.path, output.path⟩
    let p' : Project := ⟨tree', config, root.path', output.path'⟩
    List.Forall₂ (fun e e' => e.1.Moved root e'.1 ∧ Option.Rel output.Moved e.2 e'.2)
      (p.scenes.zip p.dumps) (p'.scenes.zip p'.dumps) := by
  intro p p'
  obtain ⟨found, hfound, hfound', hinner⟩ := h.exists_scenes
  have hscenes : List.Forall₂ (SourceFile.Moved root) p.scenes p'.scenes := by
    rw [Project.scenes, Project.scenes, hfound, hfound', List.forall₂_map_left_iff,
      List.forall₂_map_right_iff, List.forall₂_same]
    exact fun f hf => ⟨⟨f.path, (hinner f hf).1, (hinner f hf).2, rfl, rfl⟩, rfl⟩
  refine Lookup.zip_related hscenes ?_
  have hpaths : List.Forall₂ root.Moved (p.scenes.map SourceFile.path)
      (p'.scenes.map SourceFile.path) := by
    rw [List.forall₂_map_left_iff, List.forall₂_map_right_iff]
    exact hscenes.imp fun _ _ hab => hab.path
  have hnone : ∀ r ∈ ([] : List Text), DumpPlan.IsName config.report.dumpSuffix r := nofun
  rw [Project.dumps, Project.dumps, DumpPlan.ofTexts_eq, DumpPlan.ofTexts_eq]
  exact DumpPlan.assign_moved h.named.1 h.named.2 h.dumpSuffix hpaths hnone

theorem Relocated.state :
    let p : Project := ⟨tree, config, root.path, output.path⟩
    let p' : Project := ⟨tree', config, root.path', output.path'⟩
    p.state.Moved root output p'.state :=
  ⟨h.mirrored, rfl, Resolver.Moved.new root _ _⟩

omit h in
theorem Audit.filterMap_moved {outcomes outcomes' : List (Except SceneFailure SceneSummary)}
    (houtcomes : List.Forall₂ (MovedOutcome root output) outcomes outcomes') :
    List.Forall₂ (SceneSummary.Moved root output) (outcomes.filterMap summary?)
        (outcomes'.filterMap summary?) ∧
      List.Forall₂ (SceneFailure.Moved root output) (outcomes.filterMap failure?)
        (outcomes'.filterMap failure?) := by
  constructor
  · refine List.rel_filterMap (fun _ _ houtcome => ?_) houtcomes
    cases houtcome with
    | ok hsummary => exact .some hsummary
    | error => exact .none
  · refine List.rel_filterMap (fun _ _ houtcome => ?_) houtcomes
    cases houtcome with
    | ok => exact .none
    | error hfailure => exact .some hfailure

theorem Relocated.audit :
    Mirrored [root, output] (Audit.audit tree config root.path output.path).1
        (Audit.audit tree' config root.path' output.path').1 ∧
      (Audit.audit tree config root.path output.path).2.Moved root output
        (Audit.audit tree' config root.path' output.path').2 := by
  have hregistry := Audit.registerAll_moved h.metaSuffix h.mirrored h.scripts
  obtain ⟨hstate, houtcomes⟩ :=
    Audit.processAll_moved config h.state hregistry h.named.1 h.named.2 h.jobs
  obtain ⟨hscenes, hfailures⟩ := Audit.filterMap_moved houtcomes
  refine ⟨hstate.tree, AuditReport.moved_of ?_ (List.Forall₂.length_eq h.scripts) hregistry.size
    hscenes hfailures⟩
  have hunused := hregistry.unusedScripts h.named.1 h.named.2
  exact (hunused _).trans (congrArg (Audit.unusedScripts root.path' _) hstate.used)

end Sequential

end SceneAudit
