import SceneAudit.Proofs.Discovery.Arrangement
import SceneAudit.Proofs.Discovery.Growth
import SceneAudit.Proofs.Files.Mirror

/-! # Found files do not depend on where a project lies

Of what stands above a directory, only `.ignore` files and repositories count for what a walk below
it leaves out. Where there are none, the same files are found in two directories with the same below
them: the same paths from there, in the same order.
-/

namespace SceneAudit

open FileTree

/-- Above a location there is no `.ignore` file and no repository. -/
structure FileTree.QuietAbove (tree : FileTree) (loc : Location) : Prop where
  plain : ∀ dir ∈ IgnoreFiles.above loc, tree.entryAt (dir ++ [".ignore".toList]) = none ∨
    tree.entryAt (dir ++ [".ignore".toList]) = some .directory
  repository : ∀ dir ∈ IgnoreFiles.above loc, tree.entryAt (dir ++ [".git".toList]) = none

instance (tree : FileTree) : DecidablePred tree.QuietAbove := fun loc =>
  decidable_of_iff ((∀ dir ∈ IgnoreFiles.above loc,
      tree.entryAt (dir ++ [".ignore".toList]) = none ∨
        tree.entryAt (dir ++ [".ignore".toList]) = some .directory) ∧
      ∀ dir ∈ IgnoreFiles.above loc, tree.entryAt (dir ++ [".git".toList]) = none)
    ⟨fun h => ⟨h.1, h.2⟩, fun h => ⟨h.1, h.2⟩⟩

namespace IgnoreFiles

variable {files files' : IgnoreFiles} {loc loc' : Location}

theorem above_append (loc ns : Location) :
    above (loc ++ ns) = (above ns).map (loc ++ ·) ++ above loc := by
  unfold above
  rw [List.length_append, List.range_add, List.reverse_append, List.map_append, ← List.map_reverse,
    List.map_map, List.map_map]
  refine congrArg₂ _ (List.map_congr_left fun n _ => ?_) (List.map_congr_left fun n hn => ?_)
  · exact List.take_length_add_append n
  · exact List.take_append_of_le_length (List.mem_range.mp (List.mem_reverse.mp hn)).le

theorem verdictOf_append (rules : List (Location × List IgnoreRule)) (loc : Location)
    (isDirectory : Bool) (dirs dirs' : List Location) :
    verdictOf rules loc isDirectory (dirs ++ dirs') =
      (verdictOf rules loc isDirectory dirs).orElse (verdictOf rules loc isDirectory dirs') := by
  induction dirs with
  | nil => rfl
  | cons dir dirs ih =>
    rw [List.cons_append, verdictOf, verdictOf, ih]
    generalize (rules.lookup dir).elim _ _ = first
    cases first <;> rfl

theorem verdictOf_silent {rules : List (Location × List IgnoreRule)} {dirs : List Location}
    (h : ∀ dir ∈ dirs, rules.lookup dir = none) (loc : Location) (isDirectory : Bool) :
    verdictOf rules loc isDirectory dirs = .silent := by
  induction dirs with
  | nil => rfl
  | cons dir dirs ih =>
    obtain ⟨hdir, hdirs⟩ := List.forall_mem_cons.mp h
    rw [verdictOf, hdir, ih hdirs]
    rfl

theorem verdictOf_map {rules rules' : List (Location × List IgnoreRule)}
    (h : ∀ dir, rules.lookup (loc ++ dir) = rules'.lookup (loc' ++ dir)) (ns : Location)
    (isDirectory : Bool) (dirs : List Location) :
    verdictOf rules (loc ++ ns) isDirectory (dirs.map (loc ++ ·)) =
      verdictOf rules' (loc' ++ ns) isDirectory (dirs.map (loc' ++ ·)) := by
  induction dirs with
  | nil => rfl
  | cons dir dirs ih =>
    rw [List.map_cons, List.map_cons, verdictOf, verdictOf, ih, h, List.length_append,
      List.length_append, List.drop_length_add_append, List.drop_length_add_append]

theorem withinRepository_append {dirs : List Location} (h : dirs.any files.isRepository = true)
    (dirs' : List Location) :
    files.withinRepository (dirs ++ dirs') = files.withinRepository dirs := by
  induction dirs with
  | nil => cases h
  | cons dir dirs ih =>
    rw [List.cons_append, withinRepository, withinRepository]
    split
    · rfl
    · rename_i hdir
      rw [List.any_cons, Bool.or_eq_true_iff, or_iff_right hdir] at h
      rw [ih h]

theorem exists_withinRepository_map
    (h : ∀ dir, files.isRepository (loc ++ dir) = files'.isRepository (loc' ++ dir))
    (dirs : List Location) : ∃ inside : List Location,
      files.withinRepository (dirs.map (loc ++ ·)) = inside.map (loc ++ ·) ∧
        files'.withinRepository (dirs.map (loc' ++ ·)) = inside.map (loc' ++ ·) := by
  induction dirs with
  | nil => exact ⟨[], rfl, rfl⟩
  | cons dir dirs ih =>
    obtain ⟨inside, hinside, hinside'⟩ := ih
    rw [List.map_cons, List.map_cons, withinRepository, withinRepository, h, hinside, hinside']
    split
    · exact ⟨[dir], rfl, rfl⟩
    · exact ⟨dir :: inside, rfl, rfl⟩

/-- Two sets of ignore files say the same below two directories, and nothing that counts above
them. -/
structure AlikeBelow (loc loc' : Location) (files files' : IgnoreFiles) : Prop where
  plain : ∀ dir, files.plain.lookup (loc ++ dir) = files'.plain.lookup (loc' ++ dir)
  versioned : ∀ dir, files.versioned.lookup (loc ++ dir) = files'.versioned.lookup (loc' ++ dir)
  excluded : ∀ dir, files.excluded.lookup (loc ++ dir) = files'.excluded.lookup (loc' ++ dir)
  repositories : ∀ dir, files.isRepository (loc ++ dir) = files'.isRepository (loc' ++ dir)
  quiet : ∀ dir ∈ above loc, files.plain.lookup dir = none ∧ files.isRepository dir = false
  quiet' : ∀ dir ∈ above loc', files'.plain.lookup dir = none ∧ files'.isRepository dir = false

namespace AlikeBelow

variable (h : AlikeBelow loc loc' files files')

include h

theorem verdict (ns : Location) (isDirectory : Bool) :
    files.verdict (loc ++ ns) isDirectory = files'.verdict (loc' ++ ns) isDirectory := by
  have hany : ((above ns).map (loc ++ ·)).any files.isRepository =
      ((above ns).map (loc' ++ ·)).any files'.isRepository := by
    rw [List.any_map, List.any_map]
    exact congrArg _ (funext h.repositories)
  have hnone : (above loc).any files.isRepository = false := by
    rw [List.any_eq_false]
    exact fun dir hdir => by simp [(h.quiet dir hdir).2]
  have hnone' : (above loc').any files'.isRepository = false := by
    rw [List.any_eq_false]
    exact fun dir hdir => by simp [(h.quiet' dir hdir).2]
  have hplain : verdictOf files.plain (loc ++ ns) isDirectory (above (loc ++ ns)) =
      verdictOf files'.plain (loc' ++ ns) isDirectory (above (loc' ++ ns)) := by
    rw [above_append, above_append, verdictOf_append, verdictOf_append, verdictOf_map h.plain,
      verdictOf_silent fun dir hdir => (h.quiet dir hdir).1,
      verdictOf_silent fun dir hdir => (h.quiet' dir hdir).1]
  unfold IgnoreFiles.verdict
  dsimp only
  rw [hplain, above_append, above_append, List.any_append, List.any_append, hnone, hnone', hany,
    Bool.or_false]
  cases hcases : ((above ns).map (loc' ++ ·)).any files'.isRepository with
  | false => rfl
  | true =>
    obtain ⟨inside, hinside, hinside'⟩ := exists_withinRepository_map h.repositories (above ns)
    rw [if_pos rfl, if_pos rfl, withinRepository_append (hany.trans hcases),
      withinRepository_append hcases, hinside, hinside', verdictOf_map h.versioned,
      verdictOf_map h.excluded]

theorem leavesOut {ns : Location} (hne : ns ≠ []) (isDirectory : Bool) :
    files.leavesOut (loc ++ ns) isDirectory = files'.leavesOut (loc' ++ ns) isDirectory := by
  rw [IgnoreFiles.leavesOut, IgnoreFiles.leavesOut, h.verdict,
    List.getLast?_append_of_ne_nil _ hne, List.getLast?_append_of_ne_nil _ hne]

theorem reaches (ms names : Location) :
    Finder.reaches files (loc ++ ms) names = Finder.reaches files' (loc' ++ ms) names := by
  unfold Finder.reaches
  rw [Bool.eq_iff_iff, List.all_eq_true, List.all_eq_true]
  refine forall₂_congr fun i hi => ?_
  have hne : ms ++ names.take (i + 1) ≠ [] := by
    have hlength := List.mem_range.mp hi
    intro hnil
    have htake := congrArg List.length (List.append_eq_nil_iff.mp hnil).2
    rw [List.length_take, List.length_nil] at htake
    omega
  rw [List.append_assoc, List.append_assoc, h.leavesOut hne]

end AlikeBelow

section OfTree

variable {tree tree' : FileTree} (h : tree.WellFormed)

include h

theorem quiet_ofTree (hquiet : tree.QuietAbove loc) : ∀ dir ∈ above loc,
    (ofTree tree).plain.lookup dir = none ∧ (ofTree tree).isRepository dir = false := by
  intro dir hdir
  constructor
  · rw [Option.eq_none_iff_forall_ne_some]
    intro rules hrules
    obtain ⟨content, hfile, -⟩ := (lookup_rulesAt h (by simp)).mp hrules
    rcases hquiet.plain dir hdir with hnone | hother
    · exact nomatch hnone.symm.trans hfile
    · exact nomatch hother.symm.trans hfile
  · rw [← Bool.not_eq_true, isRepository_ofTree h, hquiet.repository dir hdir]
    exact Bool.false_ne_true

theorem alikeBelow_ofTree (h' : tree'.WellFormed)
    (hentries : ∀ ns, tree.entryAt (loc ++ ns) = tree'.entryAt (loc' ++ ns))
    (hquiet : tree.QuietAbove loc) (hquiet' : tree'.QuietAbove loc') :
    AlikeBelow loc loc' (ofTree tree) (ofTree tree') := by
  have hrules : ∀ {names : Location}, names ≠ [] → ∀ dir,
      (rulesAt tree names).lookup (loc ++ dir) = (rulesAt tree' names).lookup (loc' ++ dir) := by
    intro names hne dir
    ext rules
    rw [lookup_rulesAt h hne, lookup_rulesAt h' hne, List.append_assoc, List.append_assoc,
      hentries]
  refine ⟨hrules (by simp), hrules (by simp), hrules (by simp), fun dir => ?_,
    quiet_ofTree h hquiet, quiet_ofTree h' hquiet'⟩
  rw [Bool.eq_iff_iff, isRepository_ofTree h, isRepository_ofTree h', List.append_assoc,
    List.append_assoc, hentries]

end OfTree

end IgnoreFiles

section Below

variable {base d : Text} {names : Location}

namespace Finder

theorem pathBelow_join (hd : Path.isAbsolute d = false) (hnames : ∀ name ∈ names, IsName name) :
    pathBelow (Path.join base d) names = Path.join base (pathBelow d names) := by
  induction names generalizing d with
  | nil => rfl
  | cons name names ih =>
    obtain ⟨hname, hnames⟩ := List.forall_mem_cons.mp hnames
    have hrest := ih (Path.isAbsolute_join hd hname.relative) hnames
    rw [← Path.join_join hd hname.relative] at hrest
    exact hrest

theorem bodyComponents_pathBelow (hnames : ∀ name ∈ names, IsName name) :
    Path.bodyComponents (pathBelow d names) =
      Path.bodyComponents d ++ names.map Component.name := by
  induction names generalizing d with
  | nil => exact (List.append_nil _).symm
  | cons name names ih =>
    obtain ⟨hname, hnames⟩ := List.forall_mem_cons.mp hnames
    have hcomponent : Path.component? name = some (.name name) := by
      simp [Path.component?, hname.ne_nil, hname.ne_here, hname.ne_up]
    have hrest := ih (d := Path.join d name) hnames
    rw [Path.bodyComponents_join d hname.relative, Path.bodyComponents_of_not_mem hname.slash,
      hcomponent, List.append_assoc] at hrest
    exact hrest

theorem inner_pathBelow (hd : Path.Inner d) (hnames : ∀ name ∈ names, IsName name) :
    Path.Inner (pathBelow d names) := by
  induction names generalizing d with
  | nil => exact hd
  | cons name names ih =>
    obtain ⟨hname, hnames⟩ := List.forall_mem_cons.mp hnames
    exact ih (hd.join (Path.inner_of_isName hname)) hnames

/-- The path from a base of what a walk from `d` below the base may yield: `d` itself, or a name in
a directory. -/
structure Listed (d r : Text) : Prop where
  inner : Path.Inner r
  ne_nil : Path.bodyComponents r ≠ []
  shape : r = d ∨ ∃ dir name, Path.Inner dir ∧ IsName name ∧ r = Path.join dir name

theorem listed_pathBelow (hd : Path.Inner d) (hne : names ≠ [])
    (hnames : ∀ name ∈ names, IsName name) : Listed d (pathBelow d names) := by
  refine ⟨inner_pathBelow hd hnames, ?_, .inr ?_⟩
  · simp [bodyComponents_pathBelow hnames, hne]
  · obtain ⟨ns, name, rfl⟩ := (List.eq_nil_or_concat names).resolve_left hne
    rw [List.concat_eq_append] at hnames ⊢
    obtain ⟨hns, hname⟩ := List.forall_mem_append.mp hnames
    exact ⟨pathBelow d ns, name, inner_pathBelow hd hns, hname name (List.mem_singleton_self _),
      List.foldl_append⟩

end Finder

end Below

section FilesBelow

variable {tree tree' : FileTree} {loc loc' : Location}

theorem FileTree.nodup_filesBelow (h : tree.WellFormed) (base : Location) :
    ((tree.filesBelow base).map Prod.fst).Nodup := by
  refine h.nodup_filterMap (fun names => base ++ names) ?_
  rintro ⟨loc, entry⟩ b hb
  dsimp only at hb
  split at hb
  · rename_i hbase
    rw [← Option.some.inj hb]
    exact beneath?_eq_some_iff.mp hbase
  · cases hb

theorem FileTree.mem_filesBelow_iff (h : tree.WellFormed) {names : Location} {content : Bytes} :
    (names, content) ∈ tree.filesBelow loc ↔
      names ≠ [] ∧ tree.entryAt (loc ++ names) = some (.file content) := by
  rw [mem_filesBelow]
  refine and_congr_right fun hne => ?_
  have hne' : loc ++ names ≠ [] := by simp [hne]
  exact ⟨fun hmem => h.entryAt_of_mem hmem hne', fun hentry => mem_of_entryAt hentry hne'⟩

theorem FileTree.filesBelow_perm (h : tree.WellFormed) (h' : tree'.WellFormed)
    (hentries : ∀ ns, tree.entryAt (loc ++ ns) = tree'.entryAt (loc' ++ ns)) :
    (tree.filesBelow loc).Perm (tree'.filesBelow loc') := by
  refine (List.perm_ext_iff_of_nodup (List.Nodup.of_map _ (nodup_filesBelow h loc))
    (List.Nodup.of_map _ (nodup_filesBelow h' loc'))).mpr ?_
  rintro ⟨names, content⟩
  rw [mem_filesBelow_iff h, mem_filesBelow_iff h', hentries]

end FilesBelow

namespace Finder

/-- The paths of the files that a walk finds in a directory, as they stand behind the path of the
directory from some base. -/
def foundBelow (tree : FileTree) (loc : Location) (d : Text) : List Text :=
  ((tree.filesBelow loc).filter fun f => reaches (.ofTree tree) loc f.1).map fun f =>
    pathBelow d f.1

section FoundBelow

variable {tree tree' : FileTree} {loc loc' : Location} {d r base : Text}

theorem exists_of_mem_foundBelow (h : tree.WellFormed) {f : Location × Bytes}
    (hf : f ∈ (tree.filesBelow loc).filter fun f => reaches (.ofTree tree) loc f.1) :
    f.1 ≠ [] ∧ ∀ name ∈ f.1, IsName name := by
  obtain ⟨hne, hfile⟩ := (mem_filesBelow_iff h).mp (List.mem_of_mem_filter hf)
  exact ⟨hne, fun name hname => h.names_of_entryAt hfile name (List.mem_append_right _ hname)⟩

theorem walk_directory (h : tree.WellFormed) (hd : Path.isAbsolute d = false)
    (hlocate : tree.locate (Path.join base d) = .ok loc)
    (hdir : tree.entryAt loc = some .directory) :
    walk tree (.ofTree tree) (Path.join base d) = (foundBelow tree loc d).map (Path.join base) := by
  rw [walk, hlocate]
  dsimp only
  rw [hdir, foundBelow, List.map_map]
  exact List.map_congr_left fun f hf => pathBelow_join hd (exists_of_mem_foundBelow h hf).2

theorem listed_of_mem_foundBelow (h : tree.WellFormed) (hd : Path.Inner d)
    (hr : r ∈ foundBelow tree loc d) : Listed d r := by
  obtain ⟨f, hf, rfl⟩ := List.mem_map.mp hr
  obtain ⟨hne, hnames⟩ := exists_of_mem_foundBelow h hf
  exact listed_pathBelow hd hne hnames

theorem pairwise_foundBelow (h : tree.WellFormed) : (foundBelow tree loc d).Pairwise
    fun a b => Path.bodyComponents a ≠ Path.bodyComponents b := by
  rw [foundBelow, List.pairwise_map]
  have hdistinct := List.pairwise_map.mp (nodup_filesBelow h loc)
  refine (hdistinct.filter _).imp_of_mem fun {f g} hf hg hne hsame => hne ?_
  rw [bodyComponents_pathBelow (exists_of_mem_foundBelow h hf).2,
    bodyComponents_pathBelow (exists_of_mem_foundBelow h hg).2,
    List.append_cancel_left_eq] at hsame
  exact List.map_injective_iff.mpr (fun _ _ => Component.name.inj) hsame

theorem foundBelow_perm (h : tree.WellFormed) (h' : tree'.WellFormed) {ms : Location}
    (halike : IgnoreFiles.AlikeBelow loc loc' (.ofTree tree) (.ofTree tree'))
    (hentries : ∀ ns, tree.entryAt (loc ++ ns) = tree'.entryAt (loc' ++ ns)) :
    (foundBelow tree (loc ++ ms) d).Perm (foundBelow tree' (loc' ++ ms) d) := by
  have hfiles : (tree.filesBelow (loc ++ ms)).Perm (tree'.filesBelow (loc' ++ ms)) := by
    refine filesBelow_perm h h' fun ns => ?_
    rw [List.append_assoc, List.append_assoc, hentries]
  unfold foundBelow
  simp only [halike.reaches]
  exact (hfiles.filter _).map _

end FoundBelow

section Walk

variable {places : List Placement} {m : Placement} {tree tree' : FileTree} {d : Text}
  (h : Mirrored places tree tree') (hm : m ∈ places)

theorem bodyComponents_ne_nil {base : Text} {loc l : Location} {content : Bytes}
    (hleads : tree.Leads base loc) (hd : Path.Inner d) (hjoin : Path.join base d ≠ [])
    (hlocate : tree.locate (Path.join base d) = .ok l)
    (hfile : tree.entryAt l = some (.file content)) : Path.bodyComponents d ≠ [] := by
  intro hnil
  rw [hleads.locate hd.relative hjoin] at hlocate
  split at hlocate
  · cases hlocate
  · have hend := follow_eq_foldl hlocate
    rw [← Path.bodyComponents, hnil, List.foldl_nil] at hend
    rw [hend, hleads.exists_pieces.2.1] at hfile
    cases hfile

include h hm

theorem exists_walk (hwell : tree.WellFormed) (hwell' : tree'.WellFormed)
    (hquiet : tree.QuietAbove m.loc) (hquiet' : tree'.QuietAbove m.loc') (hbase : m.path ≠ [])
    (hbase' : m.path' ≠ []) (hd : Path.Inner d) : ∃ rs rs' : List Text,
    walk tree (.ofTree tree) (Path.join m.path d) = rs.map (Path.join m.path) ∧
      walk tree' (.ofTree tree') (Path.join m.path' d) = rs'.map (Path.join m.path') ∧
      rs.Perm rs' ∧
      (rs.Pairwise fun a b => Path.bodyComponents a ≠ Path.bodyComponents b) ∧
      ∀ r ∈ rs, Listed d r := by
  have hjoin : ∀ {base : Text}, base ≠ [] → Path.join base d ≠ [] := by
    intro base hne
    rw [Path.join_eq hd.relative]
    simp [hne]
  obtain ⟨e, hlocate, hlocate'⟩ := h.locate hm hd (hjoin hbase) (hjoin hbase')
  rcases e with fault | ms
  · refine ⟨[], [], ?_, ?_, .nil, .nil, nofun⟩
    · rw [walk, hlocate]
      rfl
    · rw [walk, hlocate']
      rfl
  change _ = Except.ok (m.loc ++ ms) at hlocate
  change _ = Except.ok (m.loc' ++ ms) at hlocate'
  have hentries := h.entries m hm
  rcases hentry : tree.entryAt (m.loc ++ ms) with _ | (_ | content)
  · refine ⟨[], [], ?_, ?_, .nil, .nil, nofun⟩
    · simp [walk, hlocate, hentry]
    · simp [walk, hlocate', ← hentries, hentry]
  · have halike := IgnoreFiles.alikeBelow_ofTree hwell hwell' hentries hquiet hquiet'
    exact ⟨_, _, walk_directory hwell hd.relative hlocate hentry,
      walk_directory hwell' hd.relative hlocate' ((hentries ms).symm.trans hentry),
      foundBelow_perm hwell hwell' halike hentries, pairwise_foundBelow hwell,
      fun r => listed_of_mem_foundBelow hwell hd⟩
  · refine ⟨[d], [d], ?_, ?_, .refl _, List.pairwise_singleton _ d, ?_⟩
    · simp [walk, hlocate, hentry]
    · simp [walk, hlocate', ← hentries, hentry]
    · intro r hr
      obtain rfl := List.mem_singleton.mp hr
      exact ⟨hd, bodyComponents_ne_nil (h.leads m hm).1 hd (hjoin hbase) hlocate hentry, .inl rfl⟩

end Walk

section Scan

variable {config : Config} {tree : FileTree} {files : IgnoreFiles} {root r : Text}

/-- The source file at a path inside a project, with its path from there. -/
def innerFile? (config : Config) (r : Text) : Option SourceFile :=
  if Exclusion.excludes config.exclude (Path.trimBack (Path.trimFront r)) then none
  else (FileType.ofPath? config (Path.join ['/'] r)).map fun type => ⟨r, type⟩

theorem sourceFile?_join (hroot : root ≠ []) (hr : Path.isAbsolute r = false)
    (hbody : Path.bodyComponents r ≠ []) : sourceFile? config root (Path.join root r) =
      (innerFile? config r).map (SourceFile.inside root) := by
  have hname : Path.fileName? (Path.join root r) = Path.fileName? (Path.join ['/'] r) := by
    rw [Path.fileName?, Path.fileName?, Path.components_join hroot hr,
      Path.components_join (by simp) hr, List.getLast?_append_of_ne_nil _ hbody,
      List.getLast?_append_of_ne_nil _ hbody]
  rw [sourceFile?, innerFile?, Path.stripBase?_join hroot hr, Option.getD_some,
    FileType.ofPath?_congr hname]
  split
  · rfl
  · rw [Option.map_map]
    rfl

theorem path_of_innerFile? {file : SourceFile} (h : innerFile? config r = some file) :
    file.path = r := by
  unfold innerFile? at h
  split at h
  · cases h
  · obtain ⟨type, -, rfl⟩ := Option.map_eq_some_iff.mp h
    rfl

theorem scan_join {d : Text} {rs : List Text} (hroot : root ≠ [])
    (hwalk : walk tree files (Path.join root d) = rs.map (Path.join root))
    (hrs : ∀ r ∈ rs, Listed d r) : scan tree files config root (Path.join root d) =
      (rs.filterMap (innerFile? config)).map (SourceFile.inside root) := by
  rw [scan, hwalk, List.filterMap_map, List.map_filterMap]
  refine List.filterMap_congr fun r hr => ?_
  exact sourceFile?_join hroot (hrs r hr).inner.relative (hrs r hr).ne_nil

end Scan

section Found

variable {places : List Placement} {m : Placement} {tree tree' : FileTree}
  (h : Mirrored places tree tree') (hm : m ∈ places) (hwell : tree.WellFormed)
  (hwell' : tree'.WellFormed) (hquiet : tree.QuietAbove m.loc) (hquiet' : tree'.QuietAbove m.loc')
  (hroot : m.path ≠ []) (hroot' : m.path' ≠ [])

include h hm hwell hwell' hquiet hquiet' hroot hroot'

theorem exists_scan (config : Config) (type : FileType) {d : Text} (hd : Path.Inner d) :
    ∃ fs fs' : List SourceFile,
      (scan tree (.ofTree tree) config m.path (Path.join m.path d)).filter (·.type = type) =
        fs.map (SourceFile.inside m.path) ∧
      (scan tree' (.ofTree tree') config m.path' (Path.join m.path' d)).filter (·.type = type) =
        fs'.map (SourceFile.inside m.path') ∧
      fs.Perm fs' ∧
      (fs.Pairwise fun a b => Path.bodyComponents a.path ≠ Path.bodyComponents b.path) ∧
      ∀ f ∈ fs, Listed d f.path := by
  obtain ⟨rs, rs', hwalk, hwalk', hperm, hpairwise, hrs⟩ :=
    exists_walk h hm hwell hwell' hquiet hquiet' hroot hroot' hd
  have hrs' : ∀ r ∈ rs', Listed d r := fun r hr => hrs r (hperm.mem_iff.mpr hr)
  refine ⟨(rs.filterMap (innerFile? config)).filter (·.type = type),
    (rs'.filterMap (innerFile? config)).filter (·.type = type), ?_, ?_,
    (hperm.filterMap _).filter _, ?_, ?_⟩
  · rw [scan_join hroot hwalk hrs, List.filter_map]
    rfl
  · rw [scan_join hroot' hwalk' hrs', List.filter_map]
    rfl
  · refine List.Pairwise.filter _ (List.pairwise_filterMap.mpr (hpairwise.imp ?_))
    intro a b hne f hf g hg
    rwa [path_of_innerFile? hf, path_of_innerFile? hg]
  · intro f hf
    obtain ⟨r, hr, hfile⟩ := List.mem_filterMap.mp (List.mem_of_mem_filter hf)
    rw [path_of_innerFile? hfile]
    exact hrs r hr

/-- The same files are found in two projects, and listed in the same order. -/
theorem exists_findIn (config : Config) (type : FileType) {ds : List Text}
    (hds : ∀ d ∈ ds, Path.Inner d) : ∃ found : List SourceFile,
      findIn tree config m.path (ds.map (Path.join m.path)) type =
        found.map (SourceFile.inside m.path) ∧
      findIn tree' config m.path' (ds.map (Path.join m.path')) type =
        found.map (SourceFile.inside m.path') ∧
      ∀ f ∈ found, ∃ d ∈ ds, Listed d f.path := by
  choose! fs fs' hscan hscan' hperm hpairwise hlisted using fun d (hd : d ∈ ds) =>
    exists_scan h hm hwell hwell' hquiet hquiet' hroot hroot' config type (hds d hd)
  have hrelative : ∀ f ∈ ds.flatMap fs, Path.isAbsolute f.path = false := by
    intro f hf
    obtain ⟨d, hd, hf⟩ := List.mem_flatMap.mp hf
    exact (hlisted d hd f hf).inner.relative
  obtain ⟨found, hsub, hfound⟩ := exists_arrange_inside hrelative
  refine ⟨found, ?_, ?_, fun f hf => ?_⟩
  · rw [← hfound m.path hroot, findIn, List.flatMap_map, List.filter_flatMap, List.map_flatMap]
    exact congrArg arrange (List.flatMap_congr fun d hd => hscan d hd)
  · rw [← hfound m.path' hroot', findIn, List.flatMap_map, List.filter_flatMap, List.map_flatMap]
    rw [List.flatMap_congr fun d hd => hscan' d hd]
    rw [List.flatMap_def, List.flatMap_def]
    refine (arrange_flatten_congr ?_).symm
    rw [List.forall₂_map_left_iff, List.forall₂_map_right_iff, List.forall₂_same]
    intro d hd
    refine ⟨(hperm d hd).map _, List.pairwise_map.mpr ((hpairwise d hd).imp_of_mem ?_)⟩
    intro f g hf hg hne
    rw [SourceFile.inside, SourceFile.inside,
      Path.same_join hroot' (hlisted d hd f hf).inner.relative (hlisted d hd g hg).inner.relative]
    exact beq_eq_false_iff_ne.mpr hne
  · obtain ⟨d, hd, hf⟩ := List.mem_flatMap.mp (hsub hf)
    exact ⟨d, hd, hlisted d hd f hf⟩

end Found

section Root

variable {tree : FileTree} {files : IgnoreFiles} {root : Text} {loc : Location}

theorem walk_root (h : tree.WellFormed) (hleads : tree.Leads root loc) (hroot : root ≠ []) :
    walk tree files root = walk tree files (Path.join root []) := by
  have hjoin : Path.join root [] ≠ [] := by
    rw [Path.join_eq rfl]
    simp [hroot]
  have hdir := hleads.exists_pieces.2.1
  have hlocate : tree.locate (Path.join root []) = .ok loc := by
    rw [hleads.locate rfl hjoin, if_neg List.not_mem_nil]
    exact follow_singleton_iff.mpr ⟨hdir, by decide, rfl⟩
  rw [walk, walk, hleads.locate_base hroot, hlocate]
  dsimp only
  rw [hdir]
  refine List.map_congr_left fun f hf => ?_
  obtain ⟨hne, hfile⟩ := (mem_filesBelow_iff h).mp (List.mem_of_mem_filter hf)
  obtain ⟨name, names, hcons⟩ := List.exists_cons_of_ne_nil hne
  have hname := h.names_of_entryAt hfile name (by simp [hcons])
  have hstart : Path.join [] name = name := by simp [Path.join_eq hname.relative]
  rw [hcons, pathBelow, pathBelow, List.foldl_cons, List.foldl_cons,
    Path.join_join rfl hname.relative, hstart]

theorem scripts_eq_findIn (config : Config) (h : tree.WellFormed) (hleads : tree.Leads root loc)
    (hroot : root ≠ []) : scripts tree config root =
      findIn tree config root ([[]].map (Path.join root)) .script := by
  unfold scripts findIn
  dsimp only
  rw [List.map_singleton, List.flatMap_singleton, List.flatMap_singleton, scan, scan,
    walk_root h hleads hroot]

end Root

end Finder

end SceneAudit
