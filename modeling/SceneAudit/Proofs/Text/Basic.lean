import Mathlib.Data.List.Basic
import Mathlib.Data.List.TakeWhile
import SceneAudit.Text.Basic

/-! # Laws of the cuts of text

What follows the beginning of a text is the rest of it after exactly that beginning. A run of
characters of a kind goes on up to the first character of another kind. The pieces of a text between
separators hold no separator, and a separator is all that two texts need between them to keep their
pieces apart.
-/

namespace SceneAudit.Text

instance (t : Text) (p : Char → Prop) [DecidablePred p] : Decidable (∀ c ∈ t, p c) :=
  List.decidableBAll p t

theorem dropStart?_eq_some_iff {p t r : Text} : dropStart? p t = some r ↔ t = p ++ r := by
  fun_induction dropStart? p t with
  | case1 t => rw [List.nil_append, Option.some.injEq]
  | case2 => simp
  | case3 c p t ih => rw [ih, List.cons_append, List.cons.injEq, eq_self, true_and]
  | case4 c p d t hne =>
    constructor
    · rintro ⟨⟩
    · intro h
      exact absurd (List.cons.inj h).1.symm hne

@[simp] theorem dropStart?_append (p t : Text) : dropStart? p (p ++ t) = some t :=
  dropStart?_eq_some_iff.mpr rfl

theorem startsWith_iff {p t : Text} : startsWith p t = true ↔ ∃ r, t = p ++ r := by
  simp only [startsWith, Option.isSome_iff_exists, dropStart?_eq_some_iff]

theorem replace_of_not_mem {old new : Char} {t : Text} (h : old ∉ t) : replace old new t = t := by
  have hsame : ∀ c ∈ t, (if c = old then new else c) = c := by
    intro c hc
    rw [if_neg]
    rintro rfl
    exact h hc
  rw [replace, List.map_congr_left hsame, List.map_id']

section Runs

variable {p : Char → Bool} {s r : Text}

theorem takeWhile_run (hs : ∀ c ∈ s, p c = true) (hr : ∀ c, r.head? = some c → p c = false) :
    (s ++ r).takeWhile p = s := by
  rw [List.takeWhile_append_of_pos hs]
  cases r with
  | nil => simp
  | cons c r => rw [List.takeWhile_cons_of_neg (by simp [hr c rfl]), List.append_nil]

theorem dropWhile_run (hs : ∀ c ∈ s, p c = true) (hr : ∀ c, r.head? = some c → p c = false) :
    (s ++ r).dropWhile p = r := by
  rw [List.dropWhile_append_of_pos hs]
  cases r with
  | nil => rfl
  | cons c r => exact List.dropWhile_cons_of_neg (by simp [hr c rfl])

theorem exists_run (p : Char → Bool) (t : Text) : ∃ r, t = t.takeWhile p ++ r ∧
    t.dropWhile p = r ∧ (∀ c ∈ t.takeWhile p, p c = true) ∧
    ∀ c, r.head? = some c → p c = false := by
  refine ⟨t.dropWhile p, List.takeWhile_append_dropWhile.symm, rfl,
    fun c => List.mem_takeWhile_imp, ?_⟩
  intro c hc
  have hhead := List.head?_dropWhile_not p t
  rw [hc] at hhead
  simpa using hhead

end Runs

section SplitOn

variable {sep : Char}

theorem splitOn_ne_nil (sep : Char) (t : Text) : splitOn sep t ≠ [] := by
  fun_cases splitOn sep t <;> simp

theorem splitOn_cons_sep (t : Text) : splitOn sep (sep :: t) = [] :: splitOn sep t := by
  rw [splitOn, if_pos rfl]

theorem splitOn_cons {c : Char} {t piece : Text} {pieces : List Text} (hc : c ≠ sep)
    (ht : splitOn sep t = piece :: pieces) : splitOn sep (c :: t) = (c :: piece) :: pieces := by
  rw [splitOn, if_neg hc, ht]

/-- Going through a text, a character either separates or joins the first piece of what follows. -/
@[elab_as_elim]
theorem splitOn_induct (sep : Char) {motive : Text → Prop} (nil : motive [])
    (separator : ∀ t, motive t → motive (sep :: t))
    (other : ∀ c t piece pieces, c ≠ sep → splitOn sep t = piece :: pieces → motive t →
      motive (c :: t)) (t : Text) : motive t := by
  induction t with
  | nil => exact nil
  | cons c t ih =>
    by_cases hc : c = sep
    · rw [hc]
      exact separator t ih
    · obtain ⟨piece, pieces, ht⟩ := List.exists_cons_of_ne_nil (splitOn_ne_nil sep t)
      exact other c t piece pieces hc ht ih

theorem splitOn_append_sep (s t : Text) :
    splitOn sep (s ++ sep :: t) = splitOn sep s ++ splitOn sep t := by
  induction s using splitOn_induct sep with
  | nil => exact splitOn_cons_sep t
  | separator s ih =>
    rw [List.cons_append, splitOn_cons_sep, splitOn_cons_sep, ih, List.cons_append]
  | other c s piece pieces hc hs ih =>
    rw [hs, List.cons_append] at ih
    rw [List.cons_append, splitOn_cons hc ih, splitOn_cons hc hs, List.cons_append]

theorem splitOn_of_not_mem {t : Text} (h : sep ∉ t) : splitOn sep t = [t] := by
  induction t with
  | nil => rfl
  | cons c t ih =>
    obtain ⟨hc, ht⟩ := List.ne_and_not_mem_of_not_mem_cons h
    rw [splitOn_cons hc.symm (ih ht)]

theorem splitOn_append_of_not_mem {s t piece : Text} {pieces : List Text} (hs : sep ∉ s)
    (ht : splitOn sep t = piece :: pieces) : splitOn sep (s ++ t) = (s ++ piece) :: pieces := by
  induction s with
  | nil => exact ht
  | cons c s ih =>
    obtain ⟨hc, hs⟩ := List.ne_and_not_mem_of_not_mem_cons hs
    exact splitOn_cons hc.symm (ih hs)

theorem splitOn_concat {c : Char} (hc : c ≠ sep) (t : Text) :
    ∃ pieces piece, splitOn sep (t ++ [c]) = pieces ++ [piece ++ [c]] := by
  induction t with
  | nil => exact ⟨[], [], splitOn_of_not_mem (by simpa using hc.symm)⟩
  | cons d t ih =>
    obtain ⟨pieces, piece, ht⟩ := ih
    rw [List.cons_append]
    by_cases hd : d = sep
    · exact ⟨[] :: pieces, piece, by rw [hd, splitOn_cons_sep, ht, List.cons_append]⟩
    · rcases pieces with _ | ⟨first, pieces⟩
      · exact ⟨[], d :: piece, splitOn_cons hd ht⟩
      · exact ⟨(d :: first) :: pieces, piece, splitOn_cons hd ht⟩

theorem of_mem_splitOn {piece t : Text} (h : piece ∈ splitOn sep t) : sep ∉ piece ∧ piece ⊆ t := by
  induction t using splitOn_induct sep generalizing piece with
  | nil =>
    obtain rfl := List.mem_singleton.mp h
    exact ⟨List.not_mem_nil, List.Subset.refl _⟩
  | separator t ih =>
    rw [splitOn_cons_sep] at h
    rcases List.mem_cons.mp h with rfl | h
    · exact ⟨List.not_mem_nil, List.nil_subset _⟩
    · exact ⟨(ih h).1, List.subset_cons_of_subset _ (ih h).2⟩
  | other c t first pieces hc ht ih =>
    rw [ht] at ih
    rw [splitOn_cons hc ht] at h
    rcases List.mem_cons.mp h with rfl | h
    · obtain ⟨hsep, hsub⟩ := ih List.mem_cons_self
      exact ⟨List.not_mem_cons_of_ne_of_not_mem (Ne.symm hc) hsep, List.cons_subset_cons _ hsub⟩
    · obtain ⟨hsep, hsub⟩ := ih (List.mem_cons_of_mem _ h)
      exact ⟨hsep, List.subset_cons_of_subset _ hsub⟩

theorem not_mem_of_mem_splitOn {piece t : Text} (h : piece ∈ splitOn sep t) : sep ∉ piece :=
  (of_mem_splitOn h).1

theorem mem_of_mem_splitOn {piece t : Text} (h : piece ∈ splitOn sep t) : piece ⊆ t :=
  (of_mem_splitOn h).2

end SplitOn

end SceneAudit.Text
