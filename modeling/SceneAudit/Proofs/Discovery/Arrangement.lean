import SceneAudit.Proofs.Discovery.Order
import SceneAudit.Proofs.Files.Below

/-! # What arranging files depends on

Of the files with one path the first is listed. So as long as each start yields a path once, it does
not matter in which order a start yields its files. Nor does it matter which base the paths of the
files are joined to.
-/

namespace SceneAudit

namespace Sorting

variable {α β : Type} {le : α → α → Bool} {same : α → α → Bool} {p : α → Bool}

theorem filter_sort [Std.Total (le · · = true)] [IsTrans α (le · · = true)]
    (hp : ∀ a b, p a = true → p b = true → le a b = true) (l : List α) :
    (sort le l).filter p = l.filter p := by
  have hpairwise : (l.filter p).Pairwise (le · · = true) := by
    refine List.pairwise_of_forall_mem_list fun a ha b hb => ?_
    exact hp a b (List.mem_filter.mp ha).2 (List.mem_filter.mp hb).2
  have hsub : (l.filter p).Sublist (sort le l) := by
    rw [sort_eq]
    exact List.sublist_insertionSort hpairwise List.filter_sublist
  have hfiltered := hsub.filter p
  simp only [List.filter_filter, Bool.and_self] at hfiltered
  exact (hfiltered.eq_of_length ((sort_perm l).filter p).length_eq.symm).symm

theorem find?_dedupBy (hp : ∀ a b, same a b = true → p a = p b) (l : List α) :
    (dedupBy same l).find? p = l.find? p := by
  fun_induction dedupBy same l with
  | case1 => rfl
  | case2 a l hnil ih => rw [List.find?_cons, List.find?_cons, ← ih, hnil]
  | case3 a l b r hcons hsame ih =>
    rw [List.find?_cons, List.find?_cons, ← ih, hcons, List.find?_cons, hp a b hsame]
    cases p b <;> rfl
  | case4 a l b r hcons hsame ih => rw [← hcons, List.find?_cons, List.find?_cons, ih]

theorem dedupBy_map {same' : β → β → Bool} {f : α → β} {l : List α}
    (h : ∀ a ∈ l, ∀ b ∈ l, same a b = same' (f a) (f b)) :
    dedupBy same' (l.map f) = (dedupBy same l).map f := by
  induction l with
  | nil => rfl
  | cons a l ih =>
    have hrest := ih fun b hb c hc => h b (List.mem_cons_of_mem a hb) c (List.mem_cons_of_mem a hc)
    rw [List.map_cons, dedupBy, dedupBy, hrest]
    cases hdedup : dedupBy same l with
    | nil => rfl
    | cons b r =>
      have hb : b ∈ l := dedupBy_sublist.subset (hdedup ▸ List.mem_cons_self)
      rw [List.map_cons]
      simp only [h a List.mem_cons_self b (List.mem_cons_of_mem a hb)]
      split <;> rfl

theorem find?_eq_of_perm {l m : List α} (hl : l.Pairwise fun a b => ¬ (p a = true ∧ p b = true))
    (h : l.Perm m) : l.find? p = m.find? p := by
  have hfilter : (l.filter p).length ≤ 1 := by
    have hpairwise := hl.filter p
    rcases hcases : l.filter p with _ | ⟨a, _ | ⟨b, r⟩⟩
    · simp
    · simp
    · rw [hcases] at hpairwise
      have ha : a ∈ l.filter p := by simp [hcases]
      have hb : b ∈ l.filter p := by simp [hcases]
      exact absurd ⟨(List.mem_filter.mp ha).2, (List.mem_filter.mp hb).2⟩
        ((List.pairwise_cons.mp hpairwise).1 b List.mem_cons_self)
  rw [← List.head?_filter, ← List.head?_filter]
  have hperm := h.filter p
  rcases hcases : l.filter p with _ | ⟨a, _ | ⟨b, r⟩⟩
  · rw [hcases] at hperm
    rw [hperm.symm.eq_nil]
  · rw [hcases] at hperm
    rw [List.singleton_perm.mp hperm]
  · rw [hcases] at hfilter
    simp at hfilter

end Sorting

namespace Finder

variable {files files' : List SourceFile} {file : SourceFile}

/-- The first file of each path is listed. -/
theorem find?_arrange (path : Text) (files : List SourceFile) :
    (arrange files).find? (fun f => Path.same f.path path) =
      files.find? fun f => Path.same f.path path := by
  have : Std.Total fun a b : SourceFile => Path.le a.path b.path = true :=
    ⟨fun a b => Path.le_total a.path b.path⟩
  have : IsTrans SourceFile fun a b => Path.le a.path b.path = true :=
    ⟨fun _ _ _ => Path.le_trans⟩
  rw [arrange, Sorting.find?_dedupBy, ← List.head?_filter, Sorting.filter_sort, List.head?_filter]
  · intro a b ha hb
    exact Path.le_of_same (beq_iff_eq.mpr ((eq_of_beq ha).trans (eq_of_beq hb).symm))
  · intro a b hsame
    unfold Path.same at *
    rw [eq_of_beq hsame]

theorem mem_arrange_iff : file ∈ arrange files ↔
    files.find? (fun f => Path.same f.path file.path) = some file := by
  rw [← find?_arrange]
  constructor
  · intro hmem
    obtain ⟨before, after, hsplit⟩ := List.append_of_mem hmem
    have hpairwise := pairwise_arrange files
    rw [hsplit, List.pairwise_append] at hpairwise
    rw [hsplit, List.find?_eq_some_iff_append]
    refine ⟨beq_self_eq_true _, before, after, rfl, fun other hother => ?_⟩
    rw [Bool.not_eq_true']
    exact (Path.compare_eq_lt_iff.mp (hpairwise.2.2 other hother file List.mem_cons_self)).2
  · exact List.mem_of_find?_eq_some

theorem arrange_congr (h : ∀ path, files.find? (fun f => Path.same f.path path) =
    files'.find? fun f => Path.same f.path path) : arrange files = arrange files' :=
  arrange_eq_of_mem_iff fun file => by rw [mem_arrange_iff, mem_arrange_iff, h]

theorem arrange_flatten_congr {ls ls' : List (List SourceFile)}
    (h : List.Forall₂ (fun l l' => l.Perm l' ∧
      l.Pairwise fun a b => Path.same a.path b.path = false) ls ls') :
    arrange ls.flatten = arrange ls'.flatten := by
  refine arrange_congr fun path => ?_
  induction h with
  | nil => rfl
  | cons hl _ ih =>
    rw [List.flatten_cons, List.flatten_cons, List.find?_append, List.find?_append, ih,
      Sorting.find?_eq_of_perm _ hl.1]
    refine hl.2.imp fun {a b} hne ⟨ha, hb⟩ => Bool.false_ne_true (hne.symm.trans ?_)
    exact beq_iff_eq.mpr ((eq_of_beq ha).trans (eq_of_beq hb).symm)

end Finder

def SourceFile.inside (base : Text) (file : SourceFile) : SourceFile :=
  ⟨Path.join base file.path, file.type⟩

namespace Finder

theorem exists_arrange_inside {files : List SourceFile}
    (h : ∀ file ∈ files, Path.isAbsolute file.path = false) : ∃ arranged, arranged ⊆ files ∧
      ∀ base, base ≠ [] →
        arrange (files.map (SourceFile.inside base)) = arranged.map (SourceFile.inside base) := by
  let le := fun a b : SourceFile => Path.compareComponents (Path.bodyComponents a.path)
    (Path.bodyComponents b.path) != .gt
  let same := fun a b : SourceFile =>
    Path.bodyComponents a.path == Path.bodyComponents b.path
  refine ⟨Sorting.dedupBy same (Sorting.sort le files), ?_, fun base hbase => ?_⟩
  · exact fun file hfile => Sorting.mem_sort.mp (Sorting.dedupBy_sublist.subset hfile)
  · have hsort : Sorting.sort (fun a b => Path.le a.path b.path)
        (files.map (SourceFile.inside base)) =
          (Sorting.sort le files).map (SourceFile.inside base) := by
      rw [Sorting.sort_eq, Sorting.sort_eq]
      refine (List.map_insertionSort _ _ _ files fun a ha b hb => ?_).symm
      unfold SourceFile.inside Path.le
      rw [Path.compare_join hbase (h a ha) (h b hb)]
    rw [arrange, hsort]
    refine Sorting.dedupBy_map fun a ha b hb => ?_
    exact (Path.same_join hbase (h a (Sorting.mem_sort.mp ha))
      (h b (Sorting.mem_sort.mp hb))).symm

end Finder

end SceneAudit
