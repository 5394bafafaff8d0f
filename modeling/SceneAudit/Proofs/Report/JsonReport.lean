import SceneAudit.Proofs.Audit.Accounting
import SceneAudit.Proofs.Csv.RoundTrip
import SceneAudit.Proofs.Json.RoundTrip
import SceneAudit.Report.Publish

/-! # Reports read back from JSON

Whoever reads the text of a report as JSON and looks up its keys finds what the report holds: the
rows of the summary of unused scripts, each scene and each failure with its path from the project
root, and counts that add up.
-/

namespace SceneAudit

/-- A report that an audit may give, whatever schedule it follows. -/
def Audit.Reports (tree : FileTree) (config : Config) (root output : Text) (report : AuditReport) :
    Prop :=
  tree.isDirectory root = true ∧ ∃ made final, tree.makeDirectories output = .ok made ∧
    Schedule.EndOf ⟨made, config, root, output⟩ final ∧
    final.report ⟨made, config, root, output⟩ = report

theorem Audit.reports_of_run {tree after : FileTree} {config : Config} {root output : Text}
    {report : AuditReport} (h : run tree config root output = .ok (after, report)) :
    Reports tree config root output report := by
  obtain ⟨-, hroot, made, hmade, -⟩ := run_eq_ok_iff.mp h
  obtain ⟨final, hend, -, hreport⟩ := exists_endOf_of_run h hmade
  exact ⟨hroot, made, final, hmade, hend, hreport⟩

namespace Json.Data

def entry? (d : Data) (key : String) : Option Data :=
  match d with
  | .object entries => entries.lookup key.toList
  | _ => none

def text? : Data → Option Text
  | .string t => some t
  | _ => none

def nat? : Data → Option Nat
  | .number (.ofNat n) 0 => some n
  | _ => none

def list? {α : Type} (item? : Data → Option α) : Data → Option (List α)
  | .array items => items.mapM item?
  | _ => none

def textAt? (d : Data) (key : String) : Option Text :=
  (d.entry? key).bind text?

def natAt? (d : Data) (key : String) : Option Nat :=
  (d.entry? key).bind nat?

end Json.Data

namespace JsonReport

open Json (Data)

/-- What a reader finds about a scene. -/
structure SceneRow where
  scene : Text
  objects : Nat
  components : Nat
  malformed : Nat
  cycles : Nat
  deriving DecidableEq, Repr

/-- The counts that a reader finds. -/
structure Counts where
  found : Nat
  registered : Nat
  used : Nat
  unused : Nat
  processed : Nat
  failed : Nat
  deriving DecidableEq, Repr

/-- What a reader finds in a report. -/
structure Listing where
  version : Text
  unused : List UnusedScript
  scenes : List SceneRow
  failures : List SceneFailure
  counts : Counts
  deriving DecidableEq, Repr

def unused? (d : Data) : Option UnusedScript := do
  return ⟨← d.textAt? "relative_path", ← d.textAt? "guid"⟩

def sceneRow? (d : Data) : Option SceneRow := do
  return ⟨← d.textAt? "scene", ← d.natAt? "objects", ← d.natAt? "components",
    ← d.natAt? "malformed_blocks", ← d.natAt? "cycles"⟩

def failure? (d : Data) : Option SceneFailure := do
  return ⟨← d.textAt? "scene", ← d.textAt? "reason"⟩

def counts? (d : Data) : Option Counts := do
  return ⟨← d.natAt? "scripts_found", ← d.natAt? "scripts_registered", ← d.natAt? "scripts_used",
    ← d.natAt? "scripts_unused", ← d.natAt? "scenes_processed", ← d.natAt? "scenes_failed"⟩

def listing? (d : Data) : Option Listing := do
  return ⟨← d.textAt? "version", ← (d.entry? "unused").bind (Data.list? unused?),
    ← (d.entry? "scenes").bind (Data.list? sceneRow?),
    ← (d.entry? "failed_scenes").bind (Data.list? failure?),
    ← (d.entry? "summary").bind counts?⟩

def sceneRow (root : Text) (s : SceneSummary) : SceneRow :=
  ⟨Path.relativeTo root s.scene, s.objects, s.behaviors, s.malformed, s.issues.countP Issue.isCycle⟩

def failureRow (root : Text) (f : SceneFailure) : SceneFailure :=
  ⟨Path.relativeTo root f.scene, f.reason⟩

section Lookup

variable (entries : List (String × Json.Value)) (key : String)

theorem entry?_object :
    (object entries).data.entry? key = (entries.lookup key).map Json.Value.data := by
  rw [object, Json.Value.data, Json.Value.dataEntries_eq_map, List.map_map, Data.entry?]
  induction entries with
  | nil => rfl
  | cons e entries ih =>
    obtain ⟨k, v⟩ := e
    by_cases hkey : key = k
    · simp [hkey]
    · have hlist : (key.toList == k.toList) = false :=
        beq_eq_false_iff_ne.mpr fun h => hkey (String.toList_inj.mp h)
      have hstring : (key == k) = false := beq_eq_false_iff_ne.mpr hkey
      simpa [List.lookup_cons, hlist, hstring] using ih

theorem textAt?_object {t : Text} (h : entries.lookup key = some (.string t)) :
    (object entries).data.textAt? key = some t := by
  rw [Data.textAt?, entry?_object, h]
  rfl

theorem natAt?_object {n : Nat} (h : entries.lookup key = some (.number n)) :
    (object entries).data.natAt? key = some n := by
  rw [Data.natAt?, entry?_object, h]
  rfl

end Lookup

theorem unused?_ofUnused (s : UnusedScript) : unused? (ofUnused s).data = some s := by
  simp [unused?, ofUnused, textAt?_object, List.lookup_cons]

theorem sceneRow?_ofScene (root : Text) (s : SceneSummary) :
    sceneRow? (ofScene root s).data = some (sceneRow root s) := by
  simp [sceneRow?, ofScene, textAt?_object, natAt?_object, List.lookup_cons, sceneRow,
    SceneSummary.cycles, Hierarchy.cycleCount]

theorem failure?_ofFailure (root : Text) (f : SceneFailure) :
    failure? (ofFailure root f).data = some (failureRow root f) := by
  simp [failure?, ofFailure, failureRow, textAt?_object, List.lookup_cons]

theorem counts?_ofCounts (r : AuditReport) : counts? (ofCounts r).data =
    some ⟨r.scriptsFound, r.scriptsRegistered, r.usedCount, r.unused.length, r.scenesProcessed,
      r.failures.length⟩ := by
  simp [counts?, ofCounts, natAt?_object, List.lookup_cons]

/-- What a report should be listed as. -/
def listing (root : Text) (r : AuditReport) : Listing where
  version := version
  unused := r.unused
  scenes := r.scenes.map (sceneRow root)
  failures := r.failures.map (failureRow root)
  counts := ⟨r.scriptsFound, r.scriptsRegistered, r.usedCount, r.unused.length, r.scenesProcessed,
    r.failures.length⟩

theorem list?_map {α β : Type} {item? : Data → Option β} {f : α → Json.Value} {g : α → β}
    (h : ∀ a, item? (f a).data = some (g a)) (as : List α) :
    Data.list? item? (Json.Value.array (as.map f)).data = some (as.map g) := by
  have hitem : (fun a => item? (f a).data) = fun a => pure (g a) := funext h
  rw [Json.Value.data, Json.Value.dataItems_eq_map, List.map_map, Data.list?, List.mapM_map]
  exact (congrArg (as.mapM ·) hitem).trans List.mapM_pure

theorem listing?_ofReport (root : Text) (r : AuditReport) :
    listing? (ofReport root r).data = some (listing root r) := by
  have hunused := list?_map unused?_ofUnused r.unused
  have hscenes := list?_map (sceneRow?_ofScene root) r.scenes
  have hfailures := list?_map (failure?_ofFailure root) r.failures
  rw [List.map_id'] at hunused
  simp [listing?, ofReport, textAt?_object, entry?_object, List.lookup_cons, hunused, hscenes,
    hfailures, counts?_ofCounts, listing]

theorem sum_cycles (root : Text) (r : AuditReport) :
    (r.scenes.map (sceneRow root)).foldr (fun s n => s.cycles + n) 0 = r.cycleCount := by
  rw [List.foldr_map]
  rfl

theorem readText_of_writeJson {publication : Publication} {tree tree' : FileTree} {root path : Text}
    {r : AuditReport} (hpath : publication.jsonPath = some path)
    (h : publication.writeJson tree root r = .ok tree') :
    tree'.readText path = .ok (render root r) := by
  rw [Publication.writeJson, hpath] at h
  simp only at h
  split at h
  · rename_i hwrite
    cases h
    exact FileTree.readText_of_write hwrite
  · cases h

/-- The text of a report is JSON for one thing only, and in it a reader finds what the report
holds: the rows of the summary of unused scripts, every scene and every failure in order, seen from
a root, and counts that add up. -/
structure ReadBack (root : Text) (report : AuditReport) (data : Data) (found : Listing) : Prop where
  json : ∀ d, Json.Written (.element d) (render root report) ↔ d = data
  read : Json.read (render root report) = some data
  listing : listing? data = some found
  rows : Csv.read (Csv.render report.unused) =
    some (["Relative Path".toList, "GUID".toList] ::
      found.unused.map fun s => [s.relativePath, s.identifier])
  scenes : found.scenes = report.scenes.map fun s =>
    ⟨Path.relativeTo root s.scene, s.objects, s.behaviors, s.malformed,
      s.issues.countP Issue.isCycle⟩
  cycles : found.scenes.foldr (fun s n => s.cycles + n) 0 = report.cycleCount
  failures : found.failures = report.failures.map fun f => ⟨Path.relativeTo root f.scene, f.reason⟩
  registered : found.counts.used + found.counts.unused = found.counts.registered
  unused : found.counts.unused = found.unused.length
  processed : found.counts.processed = found.scenes.length
  failed : found.counts.failed = found.failures.length

end JsonReport

/-- Any report that an audit gives is read back from its text, seen from any root, and that text is
what stands in the file that it is written to. -/
theorem report_restored {tree : FileTree} {config : Config} {base output : Text}
    {report : AuditReport} (hreport : Audit.Reports tree config base output report) (root : Text) :
    (∃ data found, JsonReport.ReadBack root report data found) ∧
      ∀ (publication : Publication) (before after : FileTree) (path : Text),
        publication.jsonPath = some path →
        publication.writeJson before root report = .ok after →
        after.readText path = .ok (JsonReport.render root report) := by
  refine ⟨?_, fun publication before after path => JsonReport.readText_of_writeJson⟩
  obtain ⟨-, made, final, -, hend, rfl⟩ := hreport
  generalize hfinal : final.report ⟨made, config, base, output⟩ = report
  have hbalanced := (Accounted.of_reaches hend.reaches).balanced hend.finished
  rw [hfinal] at hbalanced
  have hread : Json.read (JsonReport.render root report) =
      some (JsonReport.ofReport root report).data := Json.Value.read_render _
  refine ⟨(JsonReport.ofReport root report).data, JsonReport.listing root report, ?_⟩
  constructor
  case json =>
    intro d
    rw [← Json.read_eq_some_iff, hread, Option.some.injEq, eq_comm]
  case read => exact hread
  case listing => exact JsonReport.listing?_ofReport root report
  case rows => exact Csv.read_render report.unused
  case scenes => rfl
  case cycles => exact JsonReport.sum_cycles root report
  case failures => rfl
  case registered => exact Nat.sub_add_cancel hbalanced.unused_le
  case unused => rfl
  case processed => exact (List.length_map _).symm
  case failed => exact (List.length_map _).symm

/-- An unused script with a quote in its name, an empty scene and one that is no text. -/
theorem report_restored_of_quote :
    let file := fun text : String => Entry.file (Utf8.encode text.toList)
    let tree : FileTree := ⟨[([['p']], .directory), ([['p'], ['S']], .directory),
      ([['p'], "A\".cs".toList], file "class A \x7b\x7d"),
      ([['p'], "A\".cs.meta".toList], file "guid: a"),
      ([['p'], ['S'], "r.unity".toList], .file [255]),
      ([['p'], ['S'], "s.unity".toList], .file [])], []⟩
    let config := { Config.default with sceneDirs := [['S']] }
    ∃ report, Audit.Reports tree config "/p".toList "/o".toList report ∧
      report.unused = [⟨"A\".cs".toList, ['a']⟩] ∧
      report.scenes.map (fun s => (s.scene, s.cycles)) = [("/p/S/s.unity".toList, 0)] ∧
      report.failures.map SceneFailure.scene = ["/p/S/r.unity".toList] ∧
      ∃ data found, JsonReport.ReadBack "/p".toList report data found := by
  intro file tree config
  have hvalues : (Audit.run tree config "/p".toList "/o".toList).toOption.map (fun r =>
      (r.2.unused, r.2.scenes.map (fun s => (s.scene, s.cycles)),
        r.2.failures.map SceneFailure.scene)) =
      some ([⟨"A\".cs".toList, ['a']⟩], [("/p/S/s.unity".toList, 0)],
        ["/p/S/r.unity".toList]) := by
    decide +kernel
  obtain ⟨after, report, hrun, heq⟩ := Audit.exists_run_of_map hvalues
  obtain ⟨hunused, hrest⟩ := Prod.mk.inj heq
  obtain ⟨hscenes, hfailures⟩ := Prod.mk.inj hrest
  have hreport := Audit.reports_of_run hrun
  exact ⟨report, hreport, hunused, hscenes, hfailures, (report_restored hreport _).1⟩

end SceneAudit
