import SceneAudit.CommandLine.Program
import SceneAudit.Proofs.Audit.DumpCount

/-! # What the closing line announces

The closing line of a run announces as many hierarchy dumps as there are processed scenes. These are
the dumps that the run has written only if no processed scene has lost its dump to a scene before
it.
-/

namespace SceneAudit.CommandLine

open FileTree

def Ending.finished? : Ending → Option Finished
  | .finished f => some f
  | _ => none

/-- The announcement of a number of dumps. -/
def Finished.announcement (f : Finished) (elapsed : Text) (dumps : Nat) : Text :=
  "Wrote ".toList ++ Text.ofNat dumps ++ " hierarchy dumps and ".toList ++ f.csvPath ++
    " in ".toList ++ elapsed ++ ['s']

theorem closingLine_eq (f : Finished) (color : Bool) (elapsed : Text) :
    f.closingLine color elapsed =
      Terminal.paint color .dimmed (f.announcement elapsed f.report.scenesProcessed) := by
  unfold Finished.closingLine Finished.announcement
  rfl

/-- A project is what the arguments ask to audit: its settings come from the options, and its files
have the output directory among them. -/
structure Asked (tree : FileTree) (arguments : List Text) (p : Project) : Prop where
  options : ∃ options, Options.ofArguments arguments = .ok options ∧
    options.configuration tree = .ok p.config ∧ options.project = p.root ∧
      options.output = p.output
  made : tree.makeDirectories p.output = .ok p.tree

section Publish

variable {tree after : FileTree} {publication : Publication} {root path : Text}
  {report : AuditReport} {lines : Text}

theorem isFile_of_publish (h : publication.publish tree root report = (after, .ok lines))
    (hfile : tree.isFile path = true) : after.isFile path = true := by
  unfold Publication.publish at h
  split at h
  · simp at h
  · rename_i written hcsv
    have hwritten : written.isFile path = true := by
      unfold Publication.writeCsv at hcsv
      split at hcsv
      · rename_i hwrite
        obtain rfl := Except.ok.inj hcsv
        exact isFile_of_write hwrite (.inr hfile)
      · simp at hcsv
    split at h
    · simp at h
    · rename_i both hjson
      obtain ⟨rfl, -⟩ := Prod.mk.inj h
      unfold Publication.writeJson at hjson
      split at hjson
      · obtain rfl := Except.ok.inj hjson
        exact hwritten
      · split at hjson
        · rename_i hwrite
          obtain rfl := Except.ok.inj hjson
          exact isFile_of_write hwrite (.inr hwritten)
        · simp at hjson

end Publish

section Run

variable {tree after : FileTree} {color : Bool} {arguments : List Text} {f : Finished}

/-- A run that comes to its end has audited what its arguments ask for and published the report. -/
theorem run_eq_finished (h : run tree color arguments = (after, .finished f)) :
    ∃ p audited publication, Asked tree arguments p ∧
      Audit.run tree p.config p.root p.output = .ok (audited, f.report) ∧
      Publication.publish publication audited p.root f.report = (after, .ok f.lines) := by
  unfold run at h
  split at h
  · simp at h
  · simp at h
  · simp at h
  · rename_i options hoptions
    unfold Options.perform at h
    split at h
    · simp at h
    · split at h
      · simp at h
      · rename_i config hconfig
        unfold Options.audit at h
        split at h
        · simp at h
        · rename_i audited report hrun
          dsimp only at h
          split at h
          · simp at h
          · rename_i published lines hpublish
            obtain ⟨rfl, hf⟩ := Prod.mk.inj h
            obtain rfl := Ending.finished.inj hf
            obtain ⟨-, -, made, hmade, -⟩ := Audit.run_eq_ok_iff.mp hrun
            exact ⟨⟨made, config, options.project, options.output⟩, audited, _,
              ⟨⟨options, hoptions, hconfig, rfl, rfl⟩, hmade⟩, hrun, hpublish⟩

theorem exists_finished_of_map {β : Type} {g : Finished → β} {b : β}
    (h : (run tree color arguments).2.finished?.map g = some b) :
    ∃ after f, run tree color arguments = (after, .finished f) ∧ g f = b := by
  rcases hrun : run tree color arguments with ⟨after, ending⟩
  rw [hrun] at h
  cases ending with
  | finished f => exact ⟨after, f, rfl, Option.some.inj h⟩
  | _ => cases h

/-- Every run that comes to its end and is not quiet closes with a line that announces as many dumps
as there are processed scenes. The dumps that its report names are files, different from each other,
and they are as many as announced if and only if before no processed scene there is another scene
that asks for the same dump: a processed scene before which there is one has no dump. All reports
that the audit may come to by another schedule count their dumps in the same way. -/
theorem closing_line_exact (hrun : run tree color arguments = (after, .finished f))
    (hquiet : f.quiet = false) (elapsed : Text) :
    ∃ p : Project, Asked tree arguments p ∧
      (Ending.finished f).output color elapsed = f.lines ++ Terminal.paint color .dimmed
        (f.announcement elapsed f.report.scenesProcessed) ++ ['\n'] ∧
      (∀ d ∈ f.report.dumps, after.isFile d = true) ∧ f.report.CountsDumps p ∧
      (∀ final, Schedule.EndOf p final → (final.report p).CountsDumps p) ∧
      ('/' ∉ p.config.report.dumpSuffix → ∀ scene ∈ p.scenes, p.Crowded scene.path ↔
        ∃ other ∈ p.scenes, Path.compare other.path scene.path = .lt ∧
          Path.fileName? other.path = Path.fileName? scene.path) := by
  obtain ⟨p, audited, publication, hasked, haudit, hpublish⟩ := run_eq_finished hrun
  obtain ⟨final, hend, rfl, hreport⟩ := Audit.exists_endOf_of_run haudit hasked.made
  have hfiled : DumpsFiled p final := .of_reaches hend.reaches
  refine ⟨p, hasked, ?_, ?_, ?_, ?_, ?_⟩
  · change f.lines ++ (if f.quiet then [] else f.closingLine color elapsed ++ ['\n']) = _
    rw [hquiet, if_neg Bool.false_ne_true, closingLine_eq]
    exact (List.append_assoc ..).symm
  · intro d hd
    rw [← hreport] at hd
    exact isFile_of_publish hpublish (hfiled.isFile hd)
  · rw [← hreport]
    exact hfiled.countsDumps
  · exact fun other hother => (DumpsFiled.of_reaches hother.reaches).countsDumps
  · intro hsuffix scene hscene
    obtain ⟨name, hname⟩ := Project.exists_fileName hscene
    refine exists_congr fun other => and_congr_right fun hother => and_congr_right fun _ => ?_
    rw [DumpPlan.clash_encode_iff hsuffix, hname]
    simp

/-- Two scenes with different names: both dumps are written, and two are announced. -/
theorem closing_line_exact_of_two_names :
    let scene := Entry.file (Utf8.encode "--- &1\nGameObject:\n".toList)
    let tree : FileTree := ⟨[([['p']], .directory), ([['p'], "Assets".toList], .directory),
      ([['p'], "Assets".toList, "Scenes".toList], .directory),
      ([['p'], "Assets".toList, "Scenes".toList, "a.unity".toList], scene),
      ([['p'], "Assets".toList, "Scenes".toList, "b.unity".toList], scene)], []⟩
    let arguments := [['p'], ['o']]
    ∃ after f, run tree false arguments = (after, .finished f) ∧ f.quiet = false ∧
      f.report.scenesProcessed = 2 ∧
      f.report.dumps = ["o/a.unity.dump".toList, "o/b.unity.dump".toList] ∧
      ∃ p : Project, Asked tree arguments p ∧
        (Ending.finished f).output false ['0'] = f.lines ++ Terminal.paint false .dimmed
          (f.announcement ['0'] f.report.scenesProcessed) ++ ['\n'] ∧
        (∀ d ∈ f.report.dumps, after.isFile d = true) ∧ f.report.CountsDumps p ∧
        (∀ final, Schedule.EndOf p final → (final.report p).CountsDumps p) ∧
        ('/' ∉ p.config.report.dumpSuffix → ∀ scene ∈ p.scenes, p.Crowded scene.path ↔
          ∃ other ∈ p.scenes, Path.compare other.path scene.path = .lt ∧
            Path.fileName? other.path = Path.fileName? scene.path) := by
  intro scene tree arguments
  have hvalues : (run tree false arguments).2.finished?.map
      (fun f => (f.quiet, f.report.scenesProcessed, f.report.dumps)) =
      some (false, 2, ["o/a.unity.dump".toList, "o/b.unity.dump".toList]) := by decide +kernel
  obtain ⟨after, f, hrun, heq⟩ := exists_finished_of_map hvalues
  obtain ⟨hquiet, hcounts⟩ := Prod.mk.inj heq
  obtain ⟨hprocessed, hdumps⟩ := Prod.mk.inj hcounts
  exact ⟨after, f, hrun, hquiet, hprocessed, hdumps, closing_line_exact hrun hquiet ['0']⟩

/-- Two scenes with one name in two directories: one dump is written, but two are announced. -/
theorem not_closing_line_exact_of_shared_name :
    let scene := Entry.file (Utf8.encode "--- &1\nGameObject:\n".toList)
    let tree : FileTree := ⟨[([['p']], .directory), ([['p'], "Assets".toList], .directory),
      ([['p'], "Assets".toList, "Scenes".toList], .directory),
      ([['p'], "Assets".toList, "Scenes".toList, ['A']], .directory),
      ([['p'], "Assets".toList, "Scenes".toList, ['B']], .directory),
      ([['p'], "Assets".toList, "Scenes".toList, ['A'], "m.unity".toList], scene),
      ([['p'], "Assets".toList, "Scenes".toList, ['B'], "m.unity".toList], scene)], []⟩
    ∃ after f, run tree false [['p'], ['o']] = (after, .finished f) ∧ f.quiet = false ∧
      f.report.dumps = ["o/m.unity.dump".toList] ∧
      f.closingLine false ['0'] =
        "Wrote 2 hierarchy dumps and o/UnusedScripts.csv in 0s".toList := by
  intro scene tree
  have hvalues : (run tree false [['p'], ['o']]).2.finished?.map
      (fun f => (f.quiet, f.report.dumps, f.closingLine false ['0'])) =
      some (false, ["o/m.unity.dump".toList],
        "Wrote 2 hierarchy dumps and o/UnusedScripts.csv in 0s".toList) := by decide +kernel
  obtain ⟨after, f, hrun, heq⟩ := exists_finished_of_map hvalues
  obtain ⟨hquiet, hrest⟩ := Prod.mk.inj heq
  obtain ⟨hdumps, hline⟩ := Prod.mk.inj hrest
  exact ⟨after, f, hrun, hquiet, hdumps, hline⟩

end Run

end SceneAudit.CommandLine
