import SceneAudit.Proofs.Discovery.Found

/-! # What ignore files depend on

In a well-formed tree the ignore files are the files at certain names in a directory, and a
repository lies where something is named `.git`. So trees that have the same there leave out the
same.
-/

namespace SceneAudit

open FileTree

namespace IgnoreFiles

/-- Two sets of ignore files say the same in every directory. -/
structure Alike (files files' : IgnoreFiles) : Prop where
  plain : ∀ dir, files.plain.lookup dir = files'.plain.lookup dir
  versioned : ∀ dir, files.versioned.lookup dir = files'.versioned.lookup dir
  excluded : ∀ dir, files.excluded.lookup dir = files'.excluded.lookup dir
  repositories : ∀ dir, files.isRepository dir = files'.isRepository dir

section Alike

variable {files files' : IgnoreFiles}

theorem verdictOf_congr {rules rules' : List (Location × List IgnoreRule)}
    (h : ∀ dir, rules.lookup dir = rules'.lookup dir) (loc : Location) (isDirectory : Bool)
    (dirs : List Location) :
    verdictOf rules loc isDirectory dirs = verdictOf rules' loc isDirectory dirs := by
  induction dirs with
  | nil => rfl
  | cons dir dirs ih => rw [verdictOf, verdictOf, h, ih]

theorem withinRepository_congr (h : ∀ dir, files.isRepository dir = files'.isRepository dir)
    (dirs : List Location) : files.withinRepository dirs = files'.withinRepository dirs := by
  induction dirs with
  | nil => rfl
  | cons dir dirs ih => rw [withinRepository, withinRepository, h, ih]

theorem Alike.leavesOut (h : Alike files files') (loc : Location) (isDirectory : Bool) :
    files.leavesOut loc isDirectory = files'.leavesOut loc isDirectory := by
  have hany : files.isRepository = files'.isRepository := funext h.repositories
  have hverdict : files.verdict loc isDirectory = files'.verdict loc isDirectory := by
    unfold verdict
    simp only [hany, withinRepository_congr h.repositories, verdictOf_congr h.plain,
      verdictOf_congr h.versioned, verdictOf_congr h.excluded]
  rw [IgnoreFiles.leavesOut, IgnoreFiles.leavesOut, hverdict]

theorem Alike.reaches (h : Alike files files') (start names : Location) :
    Finder.reaches files start names = Finder.reaches files' start names := by
  unfold Finder.reaches
  simp only [h.leavesOut]

end Alike

theorem baseOf?_eq_some_iff {names loc base : Location} :
    baseOf? names loc = some base ↔ loc = base ++ names := by
  rw [baseOf?, Option.map_eq_some_iff]
  constructor
  · rintro ⟨r, hr, rfl⟩
    have hreverse := congrArg List.reverse (beneath?_eq_some_iff.mp hr)
    rwa [List.reverse_reverse, List.reverse_append, List.reverse_reverse] at hreverse
  · rintro rfl
    exact ⟨base.reverse, beneath?_eq_some_iff.mpr List.reverse_append, List.reverse_reverse base⟩

variable {tree tree' : FileTree} {names dir : Location} {rules : List IgnoreRule}

theorem mem_rulesAt : (dir, rules) ∈ rulesAt tree names ↔
    ∃ content, (dir ++ names, .file content) ∈ tree.entries ∧
      IgnoreRule.ofFile content = rules := by
  unfold rulesAt
  rw [List.mem_filterMap]
  constructor
  · rintro ⟨⟨loc, entry⟩, hmem, h⟩
    dsimp only at h
    split at h
    · rename_i base content hbase
      obtain ⟨rfl, rfl⟩ := Prod.mk.inj (Option.some.inj h)
      obtain rfl := baseOf?_eq_some_iff.mp hbase
      exact ⟨content, hmem, rfl⟩
    · simp at h
  · rintro ⟨content, hmem, rfl⟩
    refine ⟨_, hmem, ?_⟩
    dsimp only
    rw [baseOf?_eq_some_iff.mpr rfl]

theorem nodup_rulesAt (h : tree.WellFormed) (names : Location) :
    ((rulesAt tree names).map Prod.fst).Nodup := by
  refine h.nodup_filterMap (fun base => base ++ names) ?_
  rintro ⟨loc, entry⟩ b hb
  dsimp only at hb
  split at hb
  · rename_i hbase
    rw [← Option.some.inj hb]
    exact baseOf?_eq_some_iff.mp hbase
  · simp at hb

theorem lookup_rulesAt (h : tree.WellFormed) (hne : names ≠ []) :
    (rulesAt tree names).lookup dir = some rules ↔
      ∃ content, tree.entryAt (dir ++ names) = some (.file content) ∧
        IgnoreRule.ofFile content = rules := by
  have hne' : dir ++ names ≠ [] := by simp [hne]
  rw [Lookup.lookup_eq_some_iff (nodup_rulesAt h names), mem_rulesAt]
  refine exists_congr fun content => and_congr_left fun _ => ?_
  exact ⟨fun hmem => h.entryAt_of_mem hmem hne', fun hentry => mem_of_entryAt hentry hne'⟩

theorem isRepository_ofTree (h : tree.WellFormed) : (ofTree tree).isRepository dir = true ↔
    (tree.entryAt (dir ++ [".git".toList])).isSome = true := by
  rw [isRepository, List.contains_iff_mem, ofTree, List.mem_filterMap, Option.isSome_iff_exists]
  constructor
  · rintro ⟨⟨loc, entry⟩, hmem, hbase⟩
    obtain rfl := baseOf?_eq_some_iff.mp hbase
    exact ⟨entry, h.entryAt_of_mem hmem (by simp)⟩
  · rintro ⟨entry, hentry⟩
    exact ⟨_, mem_of_entryAt hentry (by simp), baseOf?_eq_some_iff.mpr rfl⟩

def fileNames : List Location :=
  [[".ignore".toList], [".gitignore".toList], [".git".toList, "info".toList, "exclude".toList]]

theorem alike_ofTree (h : tree.WellFormed) (h' : tree'.WellFormed)
    (hfiles : ∀ names ∈ fileNames, ∀ dir content,
      tree.entryAt (dir ++ names) = some (.file content) ↔
        tree'.entryAt (dir ++ names) = some (.file content))
    (hrepositories : ∀ dir, (tree.entryAt (dir ++ [".git".toList])).isSome =
      (tree'.entryAt (dir ++ [".git".toList])).isSome) :
    Alike (ofTree tree) (ofTree tree') := by
  have hrules : ∀ names ∈ fileNames, ∀ dir,
      (rulesAt tree names).lookup dir = (rulesAt tree' names).lookup dir := by
    intro names hnames dir
    have hne : names ≠ [] := by
      rintro rfl
      exact absurd hnames (by decide)
    ext rules
    rw [lookup_rulesAt h hne, lookup_rulesAt h' hne]
    exact exists_congr fun content => and_congr_left fun _ => hfiles names hnames dir content
  refine ⟨hrules _ (by decide), hrules _ (by decide), hrules _ (by decide), fun dir => ?_⟩
  rw [Bool.eq_iff_iff, isRepository_ofTree h, isRepository_ofTree h', hrepositories]

end IgnoreFiles

end SceneAudit
