import SceneAudit.Proofs.Discovery.Growth

/-! # Scenes as a union of scans

The scenes of a project are what the scans of its scene directories yield, each path once and in
order. So it does not matter in which order the directories are given, how often, or whether they
overlap. No scene is a script under another path, since a file has one name and so one type.
-/

namespace SceneAudit

theorem FileTree.WellFormed.fileName?_of_locate {tree : FileTree} (h : tree.WellFormed)
    {path : Text} {loc : Location} {content : Bytes} (hloc : tree.locate path = .ok loc)
    (hfile : tree.entryAt loc = some (.file content)) : Path.fileName? path = loc.getLast? := by
  obtain ⟨-, -, hfollow⟩ := locate_iff.mp hloc
  obtain ⟨pieces, last, hsplit⟩ := (List.eq_nil_or_concat' (Text.splitOn '/' path)).resolve_left
    (Text.splitOn_ne_nil '/' path)
  rw [hsplit] at hfollow
  obtain ⟨m, -, hlast⟩ := follow_append_iff.mp hfollow
  obtain ⟨hdir, -, rfl⟩ := follow_singleton_iff.mp hlast
  have hnot : enter m last ≠ m := by
    intro heq
    rw [heq, hdir] at hfile
    cases hfile
  cases hcomponent : Path.component? last with
  | none => exact absurd (by rw [enter, hcomponent]) hnot
  | some c =>
    have hmove : enter m last = move m c := by rw [enter, hcomponent]
    rw [hmove] at hfile hnot ⊢
    cases c with
    | root => cases hfile
    | here => exact absurd rfl hnot
    | up =>
      rcases List.eq_nil_or_concat' m with rfl | ⟨above, name, rfl⟩
      · exact absurd rfl hnot
      · rw [move, List.dropLast_concat, h.entryAt_prefix hdir] at hfile
        cases hfile
    | name n =>
      rw [move, List.getLast?_concat, Path.fileName?, Path.components_eq, hsplit,
        List.filterMap_append, ← List.append_assoc, List.filterMap_cons_some hcomponent,
        List.filterMap_nil, List.getLast?_concat]

namespace Finder

/-- The paths of files, component by component. -/
def listing (files : List SourceFile) : List (List Component) :=
  files.map fun file => Path.components file.path

section Listing

variable {tree : FileTree} {config : Config} {root : Text} {starts starts' : List Text}
  {type : FileType}

theorem pathExists_of_mem_walk {files : IgnoreFiles} {start path : Text}
    (h : path ∈ walk tree files start) : tree.pathExists start = true := by
  unfold walk at h
  unfold FileTree.pathExists FileTree.entryOf
  cases hloc : tree.locate start with
  | error fault => simp [hloc] at h
  | ok loc => cases hentry : tree.entryAt loc <;> simp_all

theorem mem_listing_findIn_iff {cs : List Component} :
    cs ∈ listing (findIn tree config root starts type) ↔
      ∃ start ∈ starts, tree.pathExists start = true ∧
        ∃ file ∈ scan tree (IgnoreFiles.ofTree tree) config root start,
          file.type = type ∧ Path.components file.path = cs := by
  rw [listing, List.mem_map]
  constructor
  · rintro ⟨file, hfile, hcs⟩
    obtain ⟨htype, start, hstart, hscan⟩ := mem_scan_of_mem_findIn hfile
    exact ⟨start, hstart, pathExists_of_mem_walk (mem_scan_iff.mp hscan).1, file, hscan, htype, hcs⟩
  · rintro ⟨start, hstart, -, file, hscan, htype, rfl⟩
    obtain ⟨listed, hlisted, hsame⟩ := exists_mem_findIn hstart hscan htype
    exact ⟨listed, hlisted, eq_of_beq hsame⟩

theorem pairwise_listing_findIn (tree : FileTree) (config : Config) (root : Text)
    (starts : List Text) (type : FileType) :
    (listing (findIn tree config root starts type)).Pairwise
      fun a b => Path.compareComponents a b = .lt :=
  List.pairwise_map.mpr (pairwise_findIn tree config root starts type)

theorem listing_findIn_congr (h : ∀ start, start ∈ starts ↔ start ∈ starts') :
    listing (findIn tree config root starts type) =
      listing (findIn tree config root starts' type) := by
  have hself : ∀ a, Path.compareComponents a a = .eq := fun a => Std.ReflCmp.compare_self
  have hirrefl : Std.Irrefl fun a b : List Component => Path.compareComponents a b = .lt :=
    ⟨fun a hlt => nomatch hlt.symm.trans (hself a)⟩
  have hantisymm : Std.Antisymm fun a b : List Component => Path.compareComponents a b = .lt :=
    ⟨fun a b hab hba => nomatch (Std.OrientedCmp.gt_of_lt hab).symm.trans hba⟩
  refine (pairwise_listing_findIn ..).eq_of_mem_iff (pairwise_listing_findIn ..) fun cs => ?_
  rw [mem_listing_findIn_iff, mem_listing_findIn_iff]
  exact exists_congr fun start => and_congr_left fun _ => h start

theorem locate_scene_ne_script (h : tree.WellFormed) {scene script : SourceFile}
    (hscene : scene ∈ scenes tree config root) (hscript : script ∈ scripts tree config root)
    {loc : Location} (hloc : tree.locate scene.path = .ok loc) :
    tree.locate script.path ≠ .ok loc := by
  intro hloc'
  obtain ⟨loc', content, hat, hfile⟩ := FileTree.isFile_iff.mp (isFile_of_mem_scenes h hscene)
  obtain rfl : loc = loc' := Except.ok.inj (hloc.symm.trans hat)
  have hname : Path.fileName? scene.path = Path.fileName? script.path :=
    (h.fileName?_of_locate hloc hfile).trans (h.fileName?_of_locate hloc' hfile).symm
  obtain ⟨hscenetype, _, -, hscan⟩ := mem_scan_of_mem_findIn hscene
  obtain ⟨hscripttype, _, -, hscan'⟩ := mem_scan_of_mem_findIn hscript
  have htype := ofPath?_of_sourceFile? (mem_scan_iff.mp hscan).2
  have htype' := ofPath?_of_sourceFile? (mem_scan_iff.mp hscan').2
  rw [FileType.ofPath?_congr hname, htype', hscenetype, hscripttype] at htype
  exact nomatch htype

end Listing

/-- The scenes of a project stand in ascending order of their paths, each path once: those that the
scan of some scene directory yields as a scene. Only which directories are given matters, and no
scene is a script, under the same path or another one. -/
theorem scenes_union {tree : FileTree} (h : tree.WellFormed) (config : Config) (root : Text) :
    ((scenes tree config root).Pairwise fun a b =>
      Path.compare a.path b.path = .lt ∧ Path.same a.path b.path = false) ∧
    (∀ file ∈ scenes tree config root, file.type = .scene) ∧
    (∀ path, (∃ file ∈ scenes tree config root, Path.same file.path path = true) ↔
      ∃ dir ∈ config.sceneDirs, tree.pathExists (Path.join root dir) = true ∧
        ∃ file ∈ scan tree (IgnoreFiles.ofTree tree) config root (Path.join root dir),
          file.type = .scene ∧ Path.same file.path path = true) ∧
    (∀ dirs, (∀ dir, dir ∈ dirs ↔ dir ∈ config.sceneDirs) →
      listing (scenes tree { config with sceneDirs := dirs } root) =
        listing (scenes tree config root)) ∧
    ∀ scene ∈ scenes tree config root, ∀ script ∈ scripts tree config root,
      Path.same scene.path script.path = false ∧
        ∀ loc, tree.locate scene.path = .ok loc → tree.locate script.path ≠ .ok loc := by
  refine ⟨?_, fun file hfile => (mem_scan_of_mem_findIn hfile).1, fun path => ?_, ?_, ?_⟩
  · refine (pairwise_findIn tree config root _ .scene).imp fun {a b} hlt => ?_
    exact ⟨hlt, (Path.compare_eq_lt_iff.mp hlt).2⟩
  · have hlisted : (∃ file ∈ scenes tree config root, Path.same file.path path = true) ↔
        Path.components path ∈ listing (scenes tree config root) := by
      simp only [listing, List.mem_map, Path.same, beq_iff_eq]
    rw [hlisted, scenes, mem_listing_findIn_iff]
    simp only [List.mem_map, exists_exists_and_eq_and, Path.same, beq_iff_eq]
  · intro dirs hdirs
    have hstarts : ∀ start, start ∈ dirs.map (Path.join root) ↔
        start ∈ config.sceneDirs.map (Path.join root) := by
      intro start
      simp only [List.mem_map, hdirs]
    exact listing_findIn_congr hstarts
  · intro scene hscene script hscript
    refine ⟨Bool.eq_false_iff.mpr fun hsame => ?_,
      fun loc => locate_scene_ne_script h hscene hscript⟩
    obtain ⟨loc, -, hloc, -⟩ := FileTree.isFile_iff.mp (isFile_of_mem_scenes h hscene)
    obtain ⟨loc', -, hloc', -⟩ := FileTree.isFile_iff.mp (isFile_of_mem_scripts h hscript)
    obtain rfl := FileTree.locate_eq_of_same hsame hloc hloc'
    exact locate_scene_ne_script h hscene hscript hloc hloc'

/-- Scene directories one inside the other, spelled in two ways, and one that is missing. -/
theorem scenes_union_of_overlap :
    let tree : FileTree := ⟨[(["w".toList], .directory), (["w".toList, ['A']], .directory),
      (["w".toList, ['A'], "M.unity".toList], .file []), (["w".toList, "S.cs".toList], .file [])],
      []⟩
    let config := { Config.default with
      sceneDirs := ["A/M.unity".toList, ".".toList, "./A/".toList, "Gone".toList] }
    let dirs := ["Gone".toList, "./A/".toList, ".".toList, "A/M.unity".toList, ".".toList]
    tree.WellFormed ∧ (∀ dir, dir ∈ dirs ↔ dir ∈ config.sceneDirs) ∧
      scenes tree config "/w".toList = [⟨"/w/A/M.unity".toList, .scene⟩] ∧
      scripts tree config "/w".toList = [⟨"/w/S.cs".toList, .script⟩] ∧
      listing (scenes tree { config with sceneDirs := dirs } "/w".toList) =
        listing (scenes tree config "/w".toList) := by
  intro tree config dirs
  have htree : tree.WellFormed := by decide
  have hdirs : ∀ dir, dir ∈ dirs ↔ dir ∈ config.sceneDirs := by
    obtain ⟨hleft, hright⟩ : dirs ⊆ config.sceneDirs ∧ config.sceneDirs ⊆ dirs := by decide
    exact fun dir => ⟨fun h => hleft h, fun h => hright h⟩
  obtain ⟨-, -, -, hunion, -⟩ := scenes_union htree config "/w".toList
  exact ⟨htree, hdirs, by decide, by decide, hunion dirs hdirs⟩

end Finder

end SceneAudit
