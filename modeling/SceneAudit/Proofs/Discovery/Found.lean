import SceneAudit.Discovery.Finder
import SceneAudit.Proofs.Files.Trail
import SceneAudit.Proofs.Sorting

/-! # Found files are there

In a well-formed tree every source file that is found stands at the end of the path it is listed
with.
-/

namespace SceneAudit

namespace FileTree

variable {tree : FileTree} {loc names : Location} {name base : Text}

theorem beneath?_eq_some_iff {base loc names : Location} :
    beneath? base loc = some names ↔ loc = base ++ names := by
  fun_induction beneath? base loc with
  | case1 loc => rw [List.nil_append, Option.some.injEq]
  | case2 => simp
  | case3 a base loc ih => simp [ih]
  | case4 a base b loc hne => simp [Ne.symm hne]

theorem mem_filesBelow {base : Location} {content : Bytes} :
    (names, content) ∈ tree.filesBelow base ↔
      names ≠ [] ∧ (base ++ names, .file content) ∈ tree.entries := by
  unfold filesBelow
  rw [List.mem_filterMap]
  constructor
  · rintro ⟨⟨loc, entry⟩, hmem, h⟩
    dsimp only at h
    split at h
    · rename_i n ns content' hbeneath
      obtain ⟨rfl, rfl⟩ := Prod.mk.inj (Option.some.inj h)
      obtain rfl := beneath?_eq_some_iff.mp hbeneath
      exact ⟨List.cons_ne_nil n ns, hmem⟩
    · simp at h
  · rintro ⟨hne, hmem⟩
    obtain ⟨n, ns, rfl⟩ := List.exists_cons_of_ne_nil hne
    refine ⟨_, hmem, ?_⟩
    dsimp only
    rw [beneath?_eq_some_iff.mpr rfl]

theorem IsName.relative (h : IsName name) : Path.isAbsolute name = false := by
  rw [Path.isAbsolute, beq_eq_false_iff_ne]
  exact fun hhead => h.slash (List.mem_of_head? hhead)

theorem locate_join (hbase : tree.locate base = .ok loc)
    (hdir : tree.entryAt loc = some .directory) (hname : IsName name) :
    tree.locate (Path.join base name) = .ok (loc ++ [name]) := by
  obtain ⟨hnul, hne, hfollow⟩ := locate_iff.mp hbase
  have hlast : tree.follow loc [name] = .ok (loc ++ [name]) :=
    follow_singleton_iff.mpr ⟨hdir, hname.short, hname.enter loc⟩
  obtain ⟨ps, hsplit, hpieces⟩ := exists_splitOn_join base hname.relative
  refine locate_iff.mpr ⟨?_, ?_, ?_⟩
  · rw [Path.join, hname.relative, if_neg Bool.false_ne_true]
    split <;> simp [hnul, hname.nul]
  · rw [Path.join, hname.relative, if_neg Bool.false_ne_true]
    split <;> simp [hname.ne_nil]
  · rw [origin_join hname.relative, hsplit, Text.splitOn_of_not_mem hname.slash, follow_append_iff]
    refine ⟨loc, ?_, hlast⟩
    rcases hpieces with hpieces | hpieces
    · rwa [← hpieces]
    · rw [hpieces] at hfollow
      obtain ⟨m, hm, hend⟩ := follow_append_iff.mp hfollow
      obtain ⟨-, -, rfl⟩ := follow_singleton_iff.mp hend
      exact hm

theorem locate_pathBelow (h : tree.WellFormed) {start : Text} {entry : Entry}
    (hstart : tree.locate start = .ok loc) (hentry : tree.entryAt (loc ++ names) = some entry) :
    tree.locate (Finder.pathBelow start names) = .ok (loc ++ names) := by
  induction names generalizing start loc with
  | nil => rwa [List.append_nil]
  | cons name ns ih =>
    have hname := h.names_of_entryAt hentry name (by simp)
    have hjoin := locate_join hstart (h.entryAt_prefix hentry) hname
    have hassoc : loc ++ name :: ns = loc ++ [name] ++ ns := by simp
    rw [hassoc] at hentry ⊢
    exact ih hjoin hentry

end FileTree

namespace Path

theorem components_eq (path : Text) : components path =
    startComponents (split path).1 ++ (Text.splitOn '/' path).filterMap component? := by
  unfold components bodyComponents
  fun_cases split path with
  | case1 body => simp [Text.splitOn, component?]
  | case2 => simp [Text.splitOn, component?]
  | case3 body => simp [Text.splitOn, component?]
  | case4 body hroot => rfl

theorem fileName?_join_of_component {base name : Text} (h : component? name = some (.name name))
    (hslash : '/' ∉ name) : fileName? (join base name) = some name := by
  have hrelative : isAbsolute name = false := by
    rw [isAbsolute, beq_eq_false_iff_ne]
    exact fun hhead => hslash (List.mem_of_head? hhead)
  obtain ⟨ps, hsplit, -⟩ := FileTree.exists_splitOn_join base hrelative
  rw [fileName?, components_eq, hsplit, Text.splitOn_of_not_mem hslash, List.filterMap_append,
    ← List.append_assoc, List.filterMap_cons_some h, List.filterMap_nil, List.getLast?_concat]

theorem fileName?_join {base name : Text} (h : FileTree.IsName name) :
    fileName? (join base name) = some name := by
  refine fileName?_join_of_component ?_ h.slash
  simp [component?, h.ne_nil, h.ne_here, h.ne_up]

end Path

namespace Finder

variable {tree : FileTree} {config : Config} {files : IgnoreFiles} {root start path : Text}
  {file : SourceFile}

/-- A walk yields the files below its start, or at it, that nothing on the way leaves out. -/
theorem mem_walk_iff (h : tree.WellFormed) : path ∈ walk tree files start ↔
    ∃ loc names content, tree.locate start = .ok loc ∧
      tree.entryAt (loc ++ names) = some (.file content) ∧ reaches files loc names = true ∧
      pathBelow start names = path := by
  unfold walk
  cases hloc : tree.locate start with
  | error fault => simp
  | ok loc =>
    simp only [Except.ok.injEq, exists_and_left, exists_eq_left']
    have hbelow : ∀ {names entry}, tree.entryAt (loc ++ names) = some entry →
        tree.entryAt loc ≠ some .directory → names = [] := by
      intro names entry hentry hdir
      by_contra hne
      obtain ⟨n, ns, rfl⟩ := List.exists_cons_of_ne_nil hne
      exact hdir (h.entryAt_prefix hentry)
    rcases hentry : tree.entryAt loc with _ | (_ | content)
    · refine iff_of_false List.not_mem_nil ?_
      rintro ⟨names, content, hfile, -⟩
      obtain rfl := hbelow hfile (by simp [hentry])
      simp [hentry] at hfile
    · simp only [List.mem_map, List.mem_filter, Prod.exists]
      constructor
      · rintro ⟨names, content, ⟨hmem, hreaches⟩, rfl⟩
        obtain ⟨hne, hlisted⟩ := FileTree.mem_filesBelow.mp hmem
        exact ⟨names, content, h.entryAt_of_mem hlisted (by simp [hne]), hreaches, rfl⟩
      · rintro ⟨names, content, hfile, hreaches, rfl⟩
        have hne : names ≠ [] := by
          rintro rfl
          simp [hentry] at hfile
        have hlisted := FileTree.mem_of_entryAt hfile (by simp [hne])
        exact ⟨names, content, ⟨FileTree.mem_filesBelow.mpr ⟨hne, hlisted⟩, hreaches⟩, rfl⟩
    · rw [List.mem_singleton]
      constructor
      · rintro rfl
        exact ⟨[], content, by rw [List.append_nil, hentry], rfl, rfl⟩
      · rintro ⟨names, content', hfile, -, rfl⟩
        obtain rfl := hbelow hfile (by simp [hentry])
        rfl

theorem isFile_of_mem_walk (h : tree.WellFormed) (hmem : path ∈ walk tree files start) :
    tree.isFile path = true := by
  obtain ⟨loc, names, content, hloc, hentry, -, rfl⟩ := (mem_walk_iff h).mp hmem
  exact FileTree.isFile_iff.mpr ⟨_, content, FileTree.locate_pathBelow h hloc hentry, hentry⟩

theorem path_of_sourceFile? (h : sourceFile? config root path = some file) : file.path = path := by
  unfold sourceFile? at h
  split at h
  · simp at h
  · obtain ⟨type, -, rfl⟩ := Option.map_eq_some_iff.mp h
    rfl

theorem ofPath?_of_sourceFile? (h : sourceFile? config root path = some file) :
    FileType.ofPath? config path = some file.type := by
  unfold sourceFile? at h
  split at h
  · simp at h
  · obtain ⟨type, htype, rfl⟩ := Option.map_eq_some_iff.mp h
    exact htype

theorem mem_scan_iff : file ∈ scan tree files config root start ↔
      file.path ∈ walk tree files start ∧ sourceFile? config root file.path = some file := by
  unfold scan
  rw [List.mem_filterMap]
  constructor
  · rintro ⟨path, hpath, hfile⟩
    rw [path_of_sourceFile? hfile]
    exact ⟨hpath, hfile⟩
  · rintro ⟨hpath, hfile⟩
    exact ⟨file.path, hpath, hfile⟩

theorem mem_scan_of_mem_findIn {starts : List Text} {type : FileType}
    (h : file ∈ findIn tree config root starts type) :
    file.type = type ∧
      ∃ start ∈ starts, file ∈ scan tree (IgnoreFiles.ofTree tree) config root start := by
  have hsub := Sorting.dedupBy_sublist.subset h
  obtain ⟨hfound, htype⟩ := List.mem_filter.mp (Sorting.mem_sort.mp hsub)
  obtain ⟨start, hstart, hscan⟩ := List.mem_flatMap.mp hfound
  exact ⟨of_decide_eq_true htype, start, hstart, hscan⟩

theorem mem_walk_of_mem_findIn {starts : List Text} {type : FileType}
    (hmem : file ∈ findIn tree config root starts type) :
    ∃ start ∈ starts, file.path ∈ walk tree (IgnoreFiles.ofTree tree) start := by
  obtain ⟨-, start, hstart, hscan⟩ := mem_scan_of_mem_findIn hmem
  exact ⟨start, hstart, (mem_scan_iff.mp hscan).1⟩

theorem isFile_of_mem_scripts (h : tree.WellFormed) (hmem : file ∈ scripts tree config root) :
    tree.isFile file.path = true := by
  obtain ⟨_, -, hwalk⟩ := mem_walk_of_mem_findIn hmem
  exact isFile_of_mem_walk h hwalk

theorem isFile_of_mem_scenes (h : tree.WellFormed) (hmem : file ∈ scenes tree config root) :
    tree.isFile file.path = true := by
  obtain ⟨_, -, hwalk⟩ := mem_walk_of_mem_findIn hmem
  exact isFile_of_mem_walk h hwalk

end Finder

end SceneAudit
