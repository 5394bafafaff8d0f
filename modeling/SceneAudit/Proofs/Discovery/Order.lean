import SceneAudit.Proofs.Discovery.Found
import SceneAudit.Proofs.Text.Order

/-! # The order of found files

Paths are ordered by their components, and found files are listed in strictly ascending order of
their paths.
-/

namespace SceneAudit

namespace Component

/-- The text of a name. -/
def text : Component → Text
  | .name t => t
  | _ => []

theorem compare_eq : compare = compareLex (compareOn rank) (compareOn text) := by
  funext a b
  rw [compareLex, compareOn, compareOn, ← Text.compare_eq]
  cases a <;> cases b <;> rfl

instance : Std.TransCmp compare :=
  compare_eq ▸ inferInstance

instance : Std.LawfulEqCmp compare where
  eq_of_compare {a b} h := by
    rw [compare_eq, compareLex, compareOn, compareOn, Ordering.then_eq_eq, Std.compare_eq_iff_eq,
      Std.compare_eq_iff_eq] at h
    cases a <;> cases b <;> simp_all [rank, text]

end Component

namespace Path

theorem compareComponents_eq : compareComponents = List.compareLex Component.compare := by
  funext as bs
  induction as generalizing bs with
  | nil => cases bs <;> rfl
  | cons a as ih =>
    cases bs with
    | nil => rfl
    | cons b bs =>
      rw [compareComponents, List.compareLex_cons_cons, ih]
      cases Component.compare a b <;> rfl

instance : Std.TransCmp compareComponents :=
  compareComponents_eq ▸ inferInstance

instance : Std.LawfulEqCmp compareComponents :=
  compareComponents_eq ▸ inferInstance

variable {a b c : Text}

theorem compare_eq_iff : compare a b = .eq ↔ same a b = true := by
  rw [compare, Std.LawfulEqCmp.compare_eq_iff_eq, same, beq_iff_eq]

theorem le_iff : le a b = true ↔ (compare a b).isLE := by
  cases h : compare a b <;> simp [le, h]

theorem le_total (a b : Text) : le a b = true ∨ le b a = true := by
  rw [le_iff, le_iff]
  cases h : compare a b with
  | lt => exact Or.inl rfl
  | eq => exact Or.inl rfl
  | gt =>
    unfold compare at h ⊢
    exact Or.inr (by rw [Std.OrientedCmp.lt_of_gt h]; rfl)

theorem le_trans (hab : le a b = true) (hbc : le b c = true) : le a c = true := by
  rw [le_iff] at *
  unfold compare at *
  exact Std.TransCmp.isLE_trans hab hbc

theorem same_symm (h : same a b = true) : same b a = true :=
  beq_iff_eq.mpr (eq_of_beq h).symm

theorem same_trans (hab : same a b = true) (hbc : same b c = true) : same a c = true :=
  beq_iff_eq.mpr ((eq_of_beq hab).trans (eq_of_beq hbc))

theorem le_of_same (h : same a b = true) : le a b = true := by
  rw [le_iff, compare_eq_iff.mpr h]
  rfl

theorem same_of_le_of_le (hab : le a b = true) (hba : le b a = true) : same a b = true := by
  rw [le_iff] at *
  rw [← compare_eq_iff]
  unfold compare at *
  exact Std.OrientedCmp.isLE_antisymm hab hba

theorem not_lt_of_lt (h : compare a b = .lt) : compare b a ≠ .lt := by
  unfold compare at *
  rw [Std.OrientedCmp.gt_of_lt h]
  decide

theorem compare_eq_lt_iff : compare a b = .lt ↔ le a b = true ∧ same a b = false := by
  rw [le_iff, ← Bool.not_eq_true, ← compare_eq_iff]
  cases compare a b <;> simp

end Path

namespace Finder

section Arrange

theorem pairwise_arrange (files : List SourceFile) :
    (arrange files).Pairwise fun a b => Path.compare a.path b.path = .lt := by
  have : Std.Total fun a b : SourceFile => Path.le a.path b.path = true :=
    ⟨fun a b => Path.le_total a.path b.path⟩
  have : IsTrans SourceFile fun a b => Path.le a.path b.path = true :=
    ⟨fun _ _ _ => Path.le_trans⟩
  refine (Sorting.pairwise_dedupBy ?_ ?_ ?_ (Sorting.pairwise_sort _)).imp
    Path.compare_eq_lt_iff.mpr
  · exact fun a b hsame => ⟨Path.le_of_same hsame, Path.le_of_same (Path.same_symm hsame)⟩
  · exact fun a b c => Path.le_trans
  · exact fun a b => Path.same_of_le_of_le

theorem arrange_eq_of_mem_iff {files files' : List SourceFile}
    (h : ∀ file, file ∈ arrange files ↔ file ∈ arrange files') :
    arrange files = arrange files' := by
  have hirrefl : Std.Irrefl fun a b : SourceFile => Path.compare a.path b.path = .lt :=
    ⟨fun a hlt => Path.not_lt_of_lt hlt hlt⟩
  have hantisymm : Std.Antisymm fun a b : SourceFile => Path.compare a.path b.path = .lt :=
    ⟨fun a b hab hba => absurd hba (Path.not_lt_of_lt hab)⟩
  exact (pairwise_arrange files).eq_of_mem_iff (pairwise_arrange files') h

end Arrange

/-- Found files stand in strictly ascending order of their paths. -/
theorem pairwise_findIn (tree : FileTree) (config : Config) (root : Text) (starts : List Text)
    (type : FileType) : (findIn tree config root starts type).Pairwise
      fun a b => Path.compare a.path b.path = .lt :=
  pairwise_arrange _

section Membership

variable {tree tree' : FileTree} {config config' : Config} {root : Text} {starts : List Text}
  {type : FileType} {file : SourceFile}

theorem exists_mem_findIn {start : Text} (hstart : start ∈ starts)
    (hfile : file ∈ scan tree (IgnoreFiles.ofTree tree) config root start)
    (htype : file.type = type) :
    ∃ listed ∈ findIn tree config root starts type, Path.same listed.path file.path = true := by
  refine Sorting.exists_mem_dedupBy (fun a => beq_self_eq_true (Path.components a.path)) ?_ ?_
  · intro a b c hab hbc
    exact beq_iff_eq.mpr ((eq_of_beq hab).trans (eq_of_beq hbc))
  · rw [Sorting.mem_sort, List.mem_filter, List.mem_flatMap]
    exact ⟨⟨start, hstart, hfile⟩, decide_eq_true htype⟩

theorem mem_findIn_singleton_iff (h : tree.WellFormed) {start : Text} :
    file ∈ findIn tree config root [start] type ↔ file.type = type ∧
      file.path ∈ walk tree (IgnoreFiles.ofTree tree) start ∧
      sourceFile? config root file.path = some file := by
  constructor
  · intro hfile
    obtain ⟨htype, start', hstart, hscan⟩ := mem_scan_of_mem_findIn hfile
    obtain rfl := List.mem_singleton.mp hstart
    exact ⟨htype, mem_scan_iff.mp hscan⟩
  · rintro ⟨htype, hscan⟩
    obtain ⟨listed, hlisted, hsame⟩ :=
      exists_mem_findIn List.mem_cons_self (mem_scan_iff.mpr hscan) htype
    obtain ⟨htype', start', hstart, hscan'⟩ := mem_scan_of_mem_findIn hlisted
    obtain rfl := List.mem_singleton.mp hstart
    have hpath : listed.path = file.path := by
      obtain ⟨loc, names, content, hloc, hentry, -, hnames⟩ :=
        (mem_walk_iff h).mp (mem_scan_iff.mp hscan').1
      obtain ⟨loc', names', content', hloc', hentry', -, hnames'⟩ := (mem_walk_iff h).mp hscan.1
      obtain rfl : loc = loc' := Except.ok.inj (hloc.symm.trans hloc')
      have hleft := FileTree.locate_pathBelow h hloc hentry
      have hright := FileTree.locate_pathBelow h hloc hentry'
      rw [hnames] at hleft
      rw [hnames'] at hright
      have hsame' := List.append_cancel_left (FileTree.locate_eq_of_same hsame hleft hright)
      rw [← hnames, ← hnames', hsame']
    obtain rfl : listed = file := by
      rw [SourceFile.mk.injEq]
      exact ⟨hpath, htype'.trans htype.symm⟩
    exact hlisted

end Membership

end Finder

end SceneAudit
