import Mathlib.Data.List.Sort
import SceneAudit.Text.Order

/-! # Sorting and dropping neighbours

Sorting by insertion yields an ascending rearrangement, and there is only one if the order tells all
elements apart. Dropping equal neighbours leaves the others in their order.
-/

namespace SceneAudit.Sorting

variable {α β : Type} {le : α → α → Bool} {r : α → α → Prop}

theorem insert_eq (a : α) (l : List α) : insert le a l = l.orderedInsert (le · ·) a := by
  induction l with
  | nil => rfl
  | cons b l ih => rw [insert, List.orderedInsert_cons, ih]

theorem sort_eq (l : List α) : sort le l = l.insertionSort (le · ·) := by
  induction l with
  | nil => rfl
  | cons a l ih => rw [sort, ih, insert_eq, List.insertionSort_cons]

theorem sort_perm (l : List α) : (sort le l).Perm l := by
  rw [sort_eq]; exact List.perm_insertionSort _ l

@[simp] theorem mem_sort {a : α} {l : List α} : a ∈ sort le l ↔ a ∈ l :=
  (sort_perm l).mem_iff

theorem pairwise_sort [Std.Total (le · · = true)] [IsTrans α (le · · = true)] (l : List α) :
    (sort le l).Pairwise (le · · = true) := by
  rw [sort_eq]; exact List.pairwise_insertionSort _ l

theorem sort_eq_of_perm [Std.Total (le · · = true)] [IsTrans α (le · · = true)] {l m : List α}
    (h : l.Perm m) (hanti : ∀ a ∈ l, ∀ b ∈ l, le a b = true → le b a = true → a = b) :
    sort le l = sort le m := by
  have hp : (sort le l).Perm (sort le m) := (sort_perm l).trans (h.trans (sort_perm m).symm)
  refine List.Perm.eq_of_pairwise ?_ (pairwise_sort l) (pairwise_sort m) hp
  intro a b ha hb
  exact hanti a (mem_sort.mp ha) b (h.mem_iff.mpr (mem_sort.mp hb))

theorem pairwise_insert [Std.Total (le · · = true)] [IsTrans α (le · · = true)] {a : α} {l : List α}
    (ha : ∀ b ∈ l, r a b)
    (hl : l.Pairwise fun b c => le b c = true ∧ (le c b = true → r b c)) :
    (insert le a l).Pairwise fun b c => le b c = true ∧ (le c b = true → r b c) := by
  induction l with
  | nil => exact List.pairwise_singleton _ a
  | cons b l ih =>
    obtain ⟨hab, ha⟩ := List.forall_mem_cons.mp ha
    obtain ⟨hb, hl'⟩ := List.pairwise_cons.mp hl
    rw [insert]
    split
    · rename_i hle
      refine List.pairwise_cons.mpr ⟨List.forall_mem_cons.mpr ⟨⟨hle, fun _ => hab⟩, ?_⟩, hl⟩
      intro c hc
      exact ⟨IsTrans.trans (r := (le · · = true)) a b c hle (hb c hc).1, fun _ => ha c hc⟩
    · rename_i hle
      refine List.pairwise_cons.mpr ⟨fun c hc => ?_, ih ha hl'⟩
      rw [insert_eq, List.mem_orderedInsert] at hc
      rcases hc with rfl | hc
      · exact ⟨(Std.Total.total (r := (le · · = true)) c b).resolve_left hle, fun h => absurd h hle⟩
      · exact hb c hc

/-- What relates every element of a list to the later ones still relates those to each other that
the order does not tell apart. -/
theorem pairwise_sort_stable [Std.Total (le · · = true)] [IsTrans α (le · · = true)] {l : List α}
    (h : l.Pairwise r) :
    (sort le l).Pairwise fun a b => le a b = true ∧ (le b a = true → r a b) := by
  induction l with
  | nil => exact List.Pairwise.nil
  | cons a l ih =>
    obtain ⟨ha, hl⟩ := List.pairwise_cons.mp h
    exact pairwise_insert (fun b hb => ha b (mem_sort.mp hb)) (ih hl)

theorem sort_map (f : β → α) (l : List β) :
    sort le (l.map f) = (sort (fun a b => le (f a) (f b)) l).map f := by
  rw [sort_eq, sort_eq]
  exact (List.map_insertionSort _ _ f l fun _ _ _ _ => Iff.rfl).symm

theorem dedupBy_eq_self {same : α → α → Bool} {l : List α}
    (h : l.Pairwise fun a b => same a b = false) : dedupBy same l = l := by
  induction l with
  | nil => rfl
  | cons a l ih =>
    obtain ⟨ha, hl⟩ := List.pairwise_cons.mp h
    rw [dedupBy, ih hl]
    cases l with
    | nil => rfl
    | cons b l => exact if_neg (by simp [ha b List.mem_cons_self])

theorem dedupBy_sublist {same : α → α → Bool} {l : List α} : (dedupBy same l).Sublist l := by
  fun_induction dedupBy same l with
  | case1 => exact List.Sublist.slnil
  | case2 a l hnil ih => exact (List.nil_sublist l).cons_cons a
  | case3 a l b r hcons hsame ih =>
    exact ((List.sublist_cons_self b r).trans (hcons ▸ ih)).cons_cons a
  | case4 a l b r hcons hsame ih => exact (hcons ▸ ih).cons_cons a

theorem exists_mem_dedupBy {same : α → α → Bool} (hrefl : ∀ a, same a a = true)
    (htrans : ∀ a b c, same a b = true → same b c = true → same a c = true) {l : List α} {c : α}
    (hc : c ∈ l) : ∃ a ∈ dedupBy same l, same a c = true := by
  fun_induction dedupBy same l with
  | case1 => exact absurd hc List.not_mem_nil
  | case2 a l hnil ih =>
    rcases List.mem_cons.mp hc with rfl | hc
    · exact ⟨c, List.mem_cons_self, hrefl c⟩
    · obtain ⟨b, hb, -⟩ := ih hc
      exact absurd (hnil ▸ hb) List.not_mem_nil
  | case3 a l b r hcons hsame ih =>
    rcases List.mem_cons.mp hc with rfl | hc
    · exact ⟨c, List.mem_cons_self, hrefl c⟩
    · obtain ⟨d, hd, hdc⟩ := ih hc
      rcases List.mem_cons.mp (hcons ▸ hd) with rfl | hd
      · exact ⟨a, List.mem_cons_self, htrans a d c hsame hdc⟩
      · exact ⟨d, List.mem_cons_of_mem a hd, hdc⟩
  | case4 a l b r hcons hsame ih =>
    rcases List.mem_cons.mp hc with rfl | hc
    · exact ⟨c, List.mem_cons_self, hrefl c⟩
    · obtain ⟨d, hd, hdc⟩ := ih hc
      exact ⟨d, List.mem_cons_of_mem a (hcons ▸ hd), hdc⟩

theorem pairwise_dedupBy {same : α → α → Bool}
    (hle : ∀ a b, same a b = true → le a b = true ∧ le b a = true)
    (htrans : ∀ a b c, le a b = true → le b c = true → le a c = true)
    (hanti : ∀ a b, le a b = true → le b a = true → same a b = true) {l : List α}
    (hl : l.Pairwise (le · · = true)) :
    (dedupBy same l).Pairwise fun a b => le a b = true ∧ same a b = false := by
  have hstrict : ∀ a b c, le a b = true → le b c = true ∧ same b c = false →
      le a c = true ∧ same a c = false := by
    intro a b c hab hbc
    refine ⟨htrans a b c hab hbc.1, Bool.eq_false_iff.mpr fun hac => ?_⟩
    have hcb := htrans c a b (hle a c hac).2 hab
    exact Bool.false_ne_true (hbc.2.symm.trans (hanti b c hbc.1 hcb))
  fun_induction dedupBy same l with
  | case1 => exact List.Pairwise.nil
  | case2 a l hnil ih => exact List.pairwise_singleton _ a
  | case3 a l b r hcons hsame ih =>
    obtain ⟨ha, hl⟩ := List.pairwise_cons.mp hl
    obtain ⟨hb, hr⟩ := List.pairwise_cons.mp (hcons ▸ ih hl)
    refine List.pairwise_cons.mpr ⟨fun c hc => ?_, hr⟩
    exact hstrict a b c (hle a b hsame).1 (hb c hc)
  | case4 a l b r hcons hsame ih =>
    obtain ⟨ha, hl⟩ := List.pairwise_cons.mp hl
    have hrest := hcons ▸ ih hl
    have hab : le a b = true := ha b (dedupBy_sublist.subset (hcons ▸ List.mem_cons_self))
    refine List.pairwise_cons.mpr ⟨fun c hc => ?_, hrest⟩
    rcases List.mem_cons.mp hc with rfl | hc
    · exact ⟨hab, Bool.eq_false_iff.mpr hsame⟩
    · exact hstrict a b c hab ((List.pairwise_cons.mp hrest).1 c hc)

end SceneAudit.Sorting
