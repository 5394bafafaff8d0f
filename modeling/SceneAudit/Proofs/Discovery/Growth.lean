import SceneAudit.Proofs.Discovery.Ignoring
import SceneAudit.Proofs.Discovery.Order
import SceneAudit.Proofs.Files.Making
import SceneAudit.Proofs.Scene.Seams
import SceneAudit.Proofs.Text.Utf8

/-! # Growing scenes

A scene file is no script and no ignore file. So adding one, or appending blocks to one, takes no
scene and no script from what is found, and adds no script.
-/

namespace SceneAudit

open FileTree

/-- One tree has a scene file more than the other at a location, or more blocks in the scene there.
It may have new directories, but none that makes a repository. -/
structure FileTree.Grown (config : Config) (loc : Location) (before after : FileTree) : Prop where
  current : after.current = before.current
  type : ∃ dir name, loc = dir ++ [name] ∧ FileType.ofPath? config name = some .scene
  scene : ∃ content, after.entryAt loc = some (.file content) ∧ (before.entryAt loc = none ∨
    ∃ old text blocks, before.entryAt loc = some (.file old) ∧ Utf8.decode? old = some text ∧
      text.getLast? = some '\n' ∧ Text.startsWith Scene.RawBlock.headerMark blocks = true ∧
      Utf8.decode? content = some (text ++ blocks))
  others : ∀ l, l ≠ loc → after.entryAt l = before.entryAt l ∨
    before.entryAt l = none ∧ after.entryAt l = some .directory ∧ l.getLast? ≠ some ".git".toList

namespace FileType

variable {config : Config} {a b : Text}

theorem ofPath?_congr (h : Path.fileName? a = Path.fileName? b) :
    ofPath? config a = ofPath? config b := by
  unfold ofPath? Path.extension?
  rw [h]

theorem ofPath?_of_no_extension (h : Path.extension? a = none) : ofPath? config a = none := by
  rw [ofPath?, h]

end FileType

theorem Path.fileName?_of_isName {name : Text} (h : IsName name) : fileName? name = some name := by
  have hcomponent : component? name = some (.name name) := by
    simp [component?, h.ne_nil, h.ne_here, h.ne_up]
  rw [fileName?, components_eq, Text.splitOn_of_not_mem h.slash,
    List.filterMap_cons_some hcomponent, List.filterMap_nil, List.getLast?_concat]

namespace FileTree.Grown

variable {config : Config} {loc l : Location} {before after : FileTree} {root start path : Text}
  {content : Bytes}

section Put

variable {dir : Location} {name : Text}

end Put

theorem directory (h : Grown config loc before after) (hdir : before.entryAt l = some .directory) :
    after.entryAt l = some .directory := by
  have hne : l ≠ loc := by
    rintro rfl
    obtain ⟨-, -, hnone | ⟨_, _, _, hfile, -⟩⟩ := h.scene
    · exact nomatch hdir.symm.trans hnone
    · exact nomatch hdir.symm.trans hfile
  rcases h.others l hne with hsame | ⟨-, hnew, -⟩
  · rwa [hsame]
  · exact hnew

theorem locate (h : Grown config loc before after) (hlocate : before.locate path = .ok l) :
    after.locate path = .ok l := by
  have horigin : after.origin path = before.origin path := by rw [origin, origin, h.current]
  rw [locate_iff] at hlocate ⊢
  rw [horigin]
  exact ⟨hlocate.1, hlocate.2.1, follow_mono (fun _ => h.directory) hlocate.2.2⟩

theorem isDirectory (h : Grown config loc before after) (hdir : before.isDirectory path = true) :
    after.isDirectory path = true := by
  obtain ⟨l, hlocate, hentry⟩ := isDirectory_iff.mp hdir
  exact isDirectory_iff.mpr ⟨l, h.locate hlocate, h.directory hentry⟩

theorem file_iff (h : Grown config loc before after) (hne : l ≠ loc) :
    after.entryAt l = some (.file content) ↔ before.entryAt l = some (.file content) := by
  rcases h.others l hne with hsame | ⟨hnone, hnew, -⟩
  · rw [hsame]
  · simp [hnone, hnew]

theorem exists_file (h : Grown config loc before after)
    (hfile : before.entryAt l = some (.file content)) :
    ∃ content, after.entryAt l = some (.file content) := by
  by_cases hne : l = loc
  · obtain ⟨content', hfile', -⟩ := h.scene
    exact ⟨content', hne ▸ hfile'⟩
  · exact ⟨content, (h.file_iff hne).mpr hfile⟩

theorem ne_of_no_extension (h : Grown config loc before after) {dir : Location} {name : Text}
    (hname : Path.extension? name = none) : dir ++ [name] ≠ loc := by
  obtain ⟨dir', name', rfl, htype⟩ := h.type
  intro heq
  obtain rfl : name = name' := by simpa using congrArg List.getLast? heq
  exact nomatch htype.symm.trans (FileType.ofPath?_of_no_extension hname)

theorem alike (h : Grown config loc before after) (hbefore : before.WellFormed)
    (hafter : after.WellFormed) :
    IgnoreFiles.Alike (IgnoreFiles.ofTree before) (IgnoreFiles.ofTree after) := by
  refine IgnoreFiles.alike_ofTree hbefore hafter ?_ fun dir => ?_
  · intro names hnames dir content
    have hne : dir ++ names ≠ loc := by
      simp only [IgnoreFiles.fileNames, List.mem_cons, List.not_mem_nil, or_false] at hnames
      rcases hnames with rfl | rfl | rfl
      · exact h.ne_of_no_extension (by decide)
      · exact h.ne_of_no_extension (by decide)
      · rw [List.append_cons, List.append_cons]
        exact h.ne_of_no_extension (by decide)
    exact (h.file_iff hne).symm
  · rcases h.others (dir ++ [".git".toList]) (h.ne_of_no_extension (by decide)) with hsame | hnew
    · rw [hsame]
    · exact absurd List.getLast?_concat hnew.2.2

section Walk

variable (h : Grown config loc before after) (hbefore : before.WellFormed)
  (hafter : after.WellFormed)

include h hbefore hafter

theorem walk (hpath : path ∈ Finder.walk before (IgnoreFiles.ofTree before) start) :
    path ∈ Finder.walk after (IgnoreFiles.ofTree after) start := by
  obtain ⟨base, names, content, hloc, hfile, hreaches, rfl⟩ :=
    (Finder.mem_walk_iff hbefore).mp hpath
  obtain ⟨content', hfile'⟩ := h.exists_file hfile
  rw [(h.alike hbefore hafter).reaches] at hreaches
  exact (Finder.mem_walk_iff hafter).mpr
    ⟨base, names, content', h.locate hloc, hfile', hreaches, rfl⟩

theorem scenes {scene : SourceFile} (hscene : scene ∈ Finder.scenes before config root) :
    ∃ scene' ∈ Finder.scenes after config root, Path.same scene'.path scene.path = true := by
  obtain ⟨htype, start, hstart, hscan⟩ := Finder.mem_scan_of_mem_findIn hscene
  obtain ⟨hwalk, hsource⟩ := Finder.mem_scan_iff.mp hscan
  exact Finder.exists_mem_findIn hstart
    (Finder.mem_scan_iff.mpr ⟨h.walk hbefore hafter hwalk, hsource⟩) htype

end Walk

theorem ne_of_script {tree : FileTree} {base names : Location} {script : SourceFile}
    (h : Grown config loc before after) (htree : tree.WellFormed)
    (hdir : tree.entryAt base = some .directory)
    (hfile : tree.entryAt (base ++ names) = some (.file content))
    (hpath : Finder.pathBelow start names = script.path)
    (hsource : Finder.sourceFile? config root script.path = some script)
    (htype : script.type = .script) : base ++ names ≠ loc := by
  obtain ⟨dir, name, rfl, hscene⟩ := h.type
  have hne : names ≠ [] := by
    rintro rfl
    rw [List.append_nil] at hfile
    exact nomatch hfile.symm.trans hdir
  obtain ⟨ns, last, rfl⟩ := (List.eq_nil_or_concat names).resolve_left hne
  rw [List.concat_eq_append] at hfile hpath ⊢
  intro heq
  obtain rfl : last = name := by
    rw [← List.append_assoc] at heq
    exact List.singleton_inj.mp (List.append_inj_right' heq rfl)
  have hname := htree.names_of_entryAt hfile last (by simp)
  have hlast : Path.fileName? script.path = Path.fileName? last := by
    rw [← hpath, Finder.pathBelow, List.foldl_append, List.foldl_cons, List.foldl_nil,
      Path.fileName?_join hname, Path.fileName?_of_isName hname]
  have hscript := Finder.ofPath?_of_sourceFile? hsource
  rw [FileType.ofPath?_congr hlast, hscene, htype] at hscript
  exact nomatch hscript

section Scripts

variable (h : Grown config loc before after) (hbefore : before.WellFormed)
  (hroot : before.isDirectory root = true)

include h hbefore hroot

theorem readText_script {script : SourceFile}
    (hscript : script ∈ Finder.scripts before config root) :
    after.readText script.path = before.readText script.path := by
  obtain ⟨htype, hwalk, hsource⟩ := (Finder.mem_findIn_singleton_iff hbefore).mp hscript
  obtain ⟨base, names, content, hloc, hfile, -, hpath⟩ := (Finder.mem_walk_iff hbefore).mp hwalk
  obtain ⟨base', hloc', hdir⟩ := isDirectory_iff.mp hroot
  obtain rfl : base' = base := Except.ok.inj (hloc'.symm.trans hloc)
  have hne := h.ne_of_script hbefore hdir hfile hpath hsource htype
  have hplace := locate_pathBelow hbefore hloc hfile
  rw [hpath] at hplace
  exact readText_congr (h.locate hplace) hplace (((h.file_iff hne).mpr hfile).trans hfile.symm)

end Scripts

theorem readText_scene (h : Grown config loc before after) {path' text : Text}
    (hsame : Path.same path' path = true) (hfile : after.isFile path' = true)
    (hread : before.readText path = .ok text) :
    ∃ blocks, after.readText path' = .ok (text ++ blocks) ∧ (blocks = [] ∨
      text.getLast? = some '\n' ∧ Text.startsWith Scene.RawBlock.headerMark blocks = true) := by
  obtain ⟨l, content, hlocate, hentry, htext⟩ := readText_eq_ok_iff.mp hread
  obtain ⟨l', -, hlocate', -⟩ := isFile_iff.mp hfile
  obtain rfl : l' = l := locate_eq_of_same hsame hlocate' (h.locate hlocate)
  by_cases hne : l' = loc
  · subst hne
    obtain ⟨content', hnew,
      hnone | ⟨old, text', blocks, hold, htext', hend, hmark, hdecode⟩⟩ := h.scene
    · exact nomatch hentry.symm.trans hnone
    · obtain rfl := Entry.file.inj (Option.some.inj (hentry.symm.trans hold))
      obtain rfl := Option.some.inj (htext.symm.trans htext')
      exact ⟨blocks, readText_eq_ok_iff.mpr ⟨l', content', hlocate', hnew, hdecode⟩,
        Or.inr ⟨hend, hmark⟩⟩
  · refine ⟨[], ?_, Or.inl rfl⟩
    rw [List.append_nil]
    exact readText_eq_ok_iff.mpr ⟨l', content, hlocate', (h.file_iff hne).mpr hentry, htext⟩

theorem makeDirectories (h : Grown config loc before after) {made made' : FileTree}
    (hmade : before.makeDirectories path = .ok made)
    (hmade' : after.makeDirectories path = .ok made')
    (hsame : ∀ l ∈ before.trail path, after.entryAt l = before.entryAt l) :
    Grown config loc made made' := by
  let S : Location → Prop := fun l => after.entryAt l = before.entryAt l
  have hagree : AgreeOn S before after := ⟨h.current.symm, fun _ hl => Eq.symm hl⟩
  have hresult := hagree.makeDirectories hsame
  rw [hmade, hmade'] at hresult
  have hmadeAgree : AgreeOn S made made' := by
    cases hresult with
    | ok hmadeAgree => exact hmadeAgree
  have hbefore : ∀ l, ¬ S l → made.entryAt l = before.entryAt l := by
    intro l hl
    exact makeDirectories_elsewhere hmade fun hmem => hl (hsame l hmem)
  have hafter : ∀ l, ¬ S l → made'.entryAt l = after.entryAt l := by
    intro l hl
    refine makeDirectories_elsewhere hmade' fun hmem => hl (hsame l ?_)
    rwa [hagree.trail]
  refine ⟨hmadeAgree.current.symm, h.type, ?_, fun l hne => ?_⟩
  · obtain ⟨content, hnew, hnone | ⟨old, text, blocks, hold, htext⟩⟩ := h.scene
    · have hloc : ¬ S loc := fun hl => nomatch hnew.symm.trans (hl.trans hnone)
      exact ⟨content, makeDirectories_entryAt hmade' hnew, Or.inl ((hbefore loc hloc).trans hnone)⟩
    · exact ⟨content, makeDirectories_entryAt hmade' hnew,
        Or.inr ⟨old, text, blocks, makeDirectories_entryAt hmade hold, htext⟩⟩
  · by_cases hl : S l
    · exact Or.inl (hmadeAgree.entries l hl).symm
    · rw [hbefore l hl, hafter l hl]
      exact h.others l hne

end FileTree.Grown

end SceneAudit
